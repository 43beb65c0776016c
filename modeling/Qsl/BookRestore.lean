import Qsl.Machine
import Qsl.StorageRoom
import Qsl.CallEffects

namespace Qsl

open List

/-- The call that puts a resting order back. -/
def Order.restore (order : Order) : BookOp :=
  .addLimit order.id order.side order.price order.quantity .gtc

/-- What a mode is able to hold. -/
def Storage.Holds (storage : Storage) (book : Book) : Prop :=
  match storage with
  | .intrusivePooled => book.restingOrders.length ≤ IntrusiveStore.intrusivePoolCapacity
  | .contiguous => ∀ order ∈ book.restingOrders, ContiguousStore.inBand order.price = true
  | _ => True

theorem OrderBook.Valid.holds {book : OrderBook} (valid : book.Valid) :
    book.mode.Holds book.view := by
  cases book with
  | baseline store => trivial
  | intrusive store =>
    have counted : store.orderCount = store.view.restingOrders.length :=
      congrArg Observation.orderCount (IntrusiveStore.Valid.observe_eq valid)
    have bounded := IntrusiveStore.Valid.orderCount_le valid
    rw [counted] at bounded
    exact bounded
  | contiguous store => exact ContiguousStore.view_banded store

/-- A side that the taker does not reach is left as it is. -/
theorem sweep_apart {taker : Taker} {orders : List Order}
    (apart : ∀ order ∈ orders, taker.crosses order.price = false) (quantity : Quantity) :
    sweep taker orders quantity = ⟨[], [], quantity, orders⟩ := by
  cases orders with
  | nil => rfl
  | cons maker rest => exact sweep_stop taker (Or.inr (apart maker mem_cons_self))

namespace Book

/-- One more order at the end of its side. -/
def snoc (book : Book) (order : Order) : Book :=
  book.setSide order.side (book.side order.side ++ [order])

variable {book : Book} {order : Order}

theorem snoc_side (book : Book) (order : Order) (side : Side) :
    (book.snoc order).side side =
      if order.side = side then book.side side ++ [order] else book.side side := by
  rw [snoc]
  rcases order.side.eq_or_eq_opposite side with rfl | rfl
  · rw [setSide_same, if_pos rfl]
  · rw [setSide_opposite, if_neg order.side.opposite_ne.symm]

theorem mem_snoc {other : Order} :
    other ∈ (book.snoc order).restingOrders ↔ other = order ∨ other ∈ book.restingOrders := by
  simp only [mem_restingOrders, snoc_side]
  constructor
  · rintro ⟨side, member⟩
    split at member
    · rcases mem_append.mp member with old | last
      · exact Or.inr ⟨side, old⟩
      · exact Or.inl (mem_singleton.mp last)
    · exact Or.inr ⟨side, member⟩
  · rintro (rfl | ⟨side, member⟩)
    · exact ⟨other.side, by rw [if_pos rfl]; exact mem_append_right _ mem_cons_self⟩
    · refine ⟨side, ?_⟩
      split
      · exact mem_append_left _ member
      · exact member

section

variable (valid : (book.snoc order).WellFormed)

include valid

/-- A book keeps its form when the last order of a side is taken away. -/
theorem WellFormed.unsnoc : book.WellFormed := by
  apply valid.shrink
  · intro side
    rw [snoc_side]
    split
    · exact (sublist_append_left _ _).map _
    · exact List.Sublist.refl _
  · intro side other member
    have inside : other ∈ (book.snoc order).side side := by
      rw [snoc_side]
      split
      · exact mem_append_left _ member
      · exact member
    exact valid.positive side other inside

theorem WellFormed.snoc_fresh : book.contains order.id = false := by
  rw [contains_false_iff]
  intro side other member same
  -- both would stand in the longer book, and there ids are unique
  have last : order ∈ (book.snoc order).restingOrders := mem_snoc.mpr (Or.inl rfl)
  have old : other ∈ (book.snoc order).restingOrders :=
    mem_snoc.mpr (Or.inr (mem_restingOrders.mpr ⟨side, member⟩))
  obtain rfl := inj_on_of_nodup_map valid.unique old last same
  have own : other.side = side := valid.unsnoc.sided side other member
  have twice := valid.unique_side side
  rw [snoc_side, if_pos own, map_append, nodup_append] at twice
  exact twice.2.2 other.id (mem_map_of_mem member) other.id mem_cons_self rfl

theorem WellFormed.snoc_apart :
    ∀ other ∈ book.side order.side.opposite,
      (Taker.mk order.id order.side order.price false).crosses other.price = false := by
  intro other member
  have away := uncrossed_iff.mp valid.uncrossed order.side
  simp only [snoc_side, if_pos, if_neg order.side.opposite_ne.symm] at away
  rw [crosses_false_iff rfl]
  exact away order (mem_append_right _ mem_cons_self) other member

/-- Queued behind its whole side, the last order comes to stand where it stood. -/
theorem WellFormed.rest_last : book.rest order = book.snoc order := by
  have sorted := valid.sorted order.side
  rw [snoc_side, if_pos rfl, pairwise_append] at sorted
  have behind : (book.side order.side ++ []).orderedInsert
      (fun a b => Better order.side a.price b.price) order = book.side order.side ++ [order] :=
    Buckets.orderedInsert_append
      (fun other member => sorted.2.2 other member order mem_cons_self)
  rw [append_nil] at behind
  rw [Book.rest, snoc, behind]

/-- Putting the last order back neither trades nor is turned down. -/
theorem WellFormed.restore_last : book.apply order.restore = (book.snoc order, .traded []) := by
  have last : order ∈ (book.snoc order).side order.side := by
    rw [snoc_side, if_pos rfl]
    exact mem_append_right _ mem_cons_self
  have alive := (quantity_pos _).mp (valid.positive order.side order last)
  have idle := sweep_apart valid.snoc_apart order.quantity
  have whole : book.setSide order.side.opposite (book.side order.side.opposite) = book := by
    cases order.side <;> rfl
  simp only [Order.restore, Book.apply, addLimit_fresh valid.snoc_fresh, take, matchTaker, idle,
    whole]
  rw [if_pos ⟨alive, by decide⟩, ← valid.rest_last]

end

theorem WellFormed.restore_rooms {storage : Storage} (valid : (book.snoc order).WellFormed)
    (holds : storage.Holds (book.snoc order)) : storage.rooms book order.restore = true := by
  cases storage with
  | baseline => rfl
  | pooled => rfl
  | intrusivePooled =>
    have longer : (book.snoc order).restingOrders.length = book.restingOrders.length + 1 := by
      rw [← valid.rest_last, (rest_perm book order).length_eq, length_cons]
    have bounded : (book.snoc order).restingOrders.length ≤
      IntrusiveStore.intrusivePoolCapacity := holds
    have short : book.restingOrders.length ≠ IntrusiveStore.intrusivePoolCapacity := by omega
    simp [Storage.rooms, Order.restore, Storage.canStoreLimit, short]
  | contiguous =>
    have banded : ContiguousStore.inBand order.price = true :=
      holds order (mem_snoc.mpr (Or.inl rfl))
    simp [Storage.rooms, Order.restore, Storage.canStoreLimit, banded]

/-- Books are built by queueing their resting orders one after the other. -/
theorem WellFormed.snoc_induction (holds : Book → Prop) (start : holds empty)
    (step : ∀ (book : Book) (order : Order), (book.snoc order).WellFormed →
      (book.snoc order).restingOrders = book.restingOrders ++ [order] →
      holds book → holds (book.snoc order))
    (valid : book.WellFormed) : holds book := by
  obtain ⟨bids, asks⟩ := book
  induction asks using List.reverseRecOn with
  | nil =>
    induction bids using List.reverseRecOn with
    | nil => exact start
    | append_singleton bids bid ih =>
      have sided : bid.side = .buy :=
        valid.sided .buy bid (mem_append_right _ mem_cons_self)
      have shape : Book.mk (bids ++ [bid]) [] = (Book.mk bids []).snoc bid := by
        rw [snoc, sided]
        rfl
      rw [shape] at valid ⊢
      refine step _ bid valid ?_ (ih valid.unsnoc)
      rw [← shape, restingOrders, restingOrders, append_nil, append_nil]
  | append_singleton asks ask ih =>
    have sided : ask.side = .sell :=
      valid.sided .sell ask (mem_append_right _ mem_cons_self)
    have shape : Book.mk bids (asks ++ [ask]) = (Book.mk bids asks).snoc ask := by
      rw [snoc, sided]
      rfl
    rw [shape] at valid ⊢
    refine step _ ask valid ?_ (ih valid.unsnoc)
    rw [← shape, restingOrders, restingOrders, append_assoc]

end Book

theorem Storage.Holds.unsnoc {storage : Storage} {book : Book} {order : Order}
    (holds : storage.Holds (book.snoc order))
    (longer : (book.snoc order).restingOrders = book.restingOrders ++ [order]) :
    storage.Holds book := by
  cases storage with
  | baseline => trivial
  | pooled => trivial
  | intrusivePooled =>
    have bounded : (book.snoc order).restingOrders.length ≤
      IntrusiveStore.intrusivePoolCapacity := holds
    rw [longer, length_append] at bounded
    exact Nat.le_trans (Nat.le_add_right _ _) bounded
  | contiguous =>
    intro other member
    exact holds other (Book.mem_snoc.mpr (Or.inr member))

/-- The resting orders in order bring an empty book of the mode to the same book, without a
trade and without a refusal. -/
structure Storage.Rebuilds (storage : Storage) (book : Book) : Prop where
  run : Machine.run storage.apply Book.empty (book.restingOrders.map Order.restore) =
    (book, List.replicate book.restingOrders.length (.traded []))
  admitted : ∀ front order back, book.restingOrders = front ++ order :: back →
    let partly := (Machine.run storage.apply Book.empty (front.map Order.restore)).1
    partly.contains order.id = false ∧ storage.rooms partly order.restore = true

theorem Book.WellFormed.rebuilds {book : Book} (valid : book.WellFormed) {storage : Storage}
    (holds : storage.Holds book) : storage.Rebuilds book := by
  revert holds
  refine WellFormed.snoc_induction (fun book => storage.Holds book → storage.Rebuilds book)
    ?_ ?_ valid
  · intro _
    refine ⟨rfl, ?_⟩
    intro front order back shape
    cases front <;> cases shape
  · intro book last valid longer ih holds
    obtain ⟨rebuilt, admitted⟩ := ih (holds.unsnoc longer)
    have fits := valid.restore_rooms holds
    constructor
    · rw [longer, map_append, Machine.run_append, rebuilt, length_append,
        replicate_add]
      simp only [map_cons, map_nil, Machine.run_cons, Machine.run_nil, Storage.apply,
        fits, if_true, valid.restore_last]
      rfl
    · intro front order back shape
      rw [longer] at shape
      rcases eq_nil_or_concat back with rfl | ⟨before, final, rfl⟩
      · obtain ⟨rfl, same⟩ := append_inj' shape rfl
        cases same
        simp only [rebuilt]
        exact ⟨valid.snoc_fresh, fits⟩
      · rw [concat_eq_append, ← cons_append, ← append_assoc] at shape
        exact admitted front order before (append_inj' shape rfl).1

namespace OrderBook

/-- A run of calls on a book is the run on the priority book as the mode keeps it. -/
theorem Valid.run {book : OrderBook} (valid : book.Valid) (ops : List BookOp) :
    let run := Machine.run OrderBook.apply book ops
    (run.1.Valid ∧ run.1.mode = book.mode) ∧
      Machine.run book.mode.apply book.view ops = (run.1.view, run.2) :=
  Machine.run_refines OrderBook.apply book.mode.apply view
    (fun after => after.Valid ∧ after.mode = book.mode)
    (by
      rintro after op ⟨kept, mode⟩
      obtain ⟨next, left, answer⟩ := kept.apply op
      rw [mode] at left answer
      exact ⟨⟨next, (apply_mode after op).trans mode⟩, Prod.ext left.symm answer.symm⟩)
    ⟨valid, rfl⟩ ops

section Restore

variable {book : OrderBook} {storage : Storage} (valid : book.Valid)
  (mode : book.mode = (new storage).mode)

include valid mode

/-- The copy made from the resting orders has the original's priority book. -/
theorem Valid.restored :
    let restoring := Machine.run OrderBook.apply (new storage)
      (book.restingOrders.map Order.restore)
    restoring.1.Valid ∧ restoring.1.mode = book.mode ∧ restoring.1.view = book.view ∧
      ∀ reply ∈ restoring.2, reply = .traded [] := by
  obtain ⟨⟨kept, same⟩, ran⟩ := (valid_new storage).run (book.restingOrders.map Order.restore)
  have listed : book.restingOrders = book.view.restingOrders :=
    congrArg Observation.restingOrders valid.observe_eq
  have rebuilt := (valid.wellFormed.rebuilds valid.holds).run
  rw [mode, ← view_new storage, ← listed, ran] at rebuilt
  refine ⟨kept, same.trans mode.symm, congrArg Prod.fst rebuilt, ?_⟩
  intro reply member
  rw [congrArg Prod.snd rebuilt] at member
  exact (mem_replicate.mp member).2

end Restore

end OrderBook

end Qsl
