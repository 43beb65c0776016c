import Qsl.BookRestore

/- What the calls of a book promise their caller, told in terms of the resting orders that the
book lists before and after. -/
namespace Qsl

open List Option

variable {store : BaselineStore}

/-- The trade in which a taker gets some of a maker's quantity. -/
def Taker.trade (taker : Taker) (maker : Order) (quantity : Quantity) : Trade :=
  ⟨taker.id, maker.id, maker.price, quantity⟩

/-- What a taker's trades leave of a side: makers in front are used up whole, and at most one
more is reduced where it stands. -/
inductive Takes (taker : Taker) (orders : List Order) (trades : List Trade) (left : List Order) :
    Prop
  | whole (filled : List Order) (shape : orders = filled ++ left)
      (traded : trades = filled.map (fun maker => taker.trade maker maker.quantity))
  | part (filled : List Order) (maker : Order) (others : List Order) (taken : Quantity)
      (shape : orders = filled ++ maker :: others) (inside : 0 < taken ∧ taken < maker.quantity)
      (traded : trades = filled.map (fun maker => taker.trade maker maker.quantity) ++
        [taker.trade maker taken])
      (kept : left = { maker with quantity := maker.quantity - taken } :: others)

section Sweep

variable (taker : Taker)

theorem sweep_takes (orders : List Order) (quantity : Quantity) :
    Takes taker orders (sweep taker orders quantity).trades (sweep taker orders quantity).left := by
  induction orders generalizing quantity with
  | nil => exact .whole [] rfl rfl
  | cons maker rest ih =>
    by_cases stopped : quantity = 0 ∨ taker.crosses maker.price = false
    · rw [sweep_stop taker stopped]
      exact .whole [] rfl rfl
    rw [not_or, Bool.not_eq_false] at stopped
    rcases fill_cases quantity maker.quantity with
      ⟨_, traded, exhausted⟩ | ⟨short, traded, _, survives⟩
    · rw [sweep_exhaust taker stopped.1 stopped.2 exhausted]
      simp only [traded]
      cases ih (quantity - maker.quantity) with
      | whole filled shape later =>
        exact .whole (maker :: filled) (congrArg (maker :: ·) shape)
          (congrArg (taker.trade maker maker.quantity :: ·) later)
      | part filled next others taken shape inside later kept =>
        exact .part (maker :: filled) next others taken (congrArg (maker :: ·) shape) inside
          (congrArg (taker.trade maker maker.quantity :: ·) later) kept
    · rw [sweep_survive taker stopped.1 stopped.2 ((quantity_pos _).mp survives)]
      simp only [traded]
      exact .part [] maker rest quantity rfl ⟨(quantity_pos _).mpr stopped.1, short⟩ rfl rfl

end Sweep

/-- The order stands behind all orders of an equal or better price, and in front of the others. -/
def QueuedIn (side : Side) (before : List Order) (order : Order) (after : List Order) : Prop :=
  ∃ front back, before = front ++ back ∧ after = front ++ order :: back ∧
    (∀ other ∈ front, ¬ Better side order.price other.price) ∧
    ∀ other ∈ back, Better side order.price other.price

namespace Book

variable {book : Book}

theorem WellFormed.rest_queued (valid : book.WellFormed) (order : Order) :
    QueuedIn order.side (book.side order.side) order ((book.rest order).side order.side) := by
  have sorted := valid.sorted order.side
  rw [Book.rest, setSide_same, orderedInsert_eq_take_drop]
  refine ⟨_, _, takeWhile_append_dropWhile.symm, rfl, ?_, ?_⟩
  · intro other member
    have kept := mem_takeWhile_imp member
    exact of_decide_eq_true kept
  · intro other member
    -- the first order of the rest is worse, and no later one is better than the first
    cases shape : (book.side order.side).dropWhile
        (fun other => ¬ Better order.side order.price other.price) with
    | nil =>
      rw [shape] at member
      cases member
    | cons first later =>
      have worse : Better order.side order.price first.price := by
        have stopped := head?_dropWhile_not
          (fun other => ¬ Better order.side order.price other.price) (book.side order.side)
        rw [shape] at stopped
        simpa using stopped
      have apart := sorted.sublist (dropWhile_sublist
        (fun other => ¬ Better order.side order.price other.price))
      rw [shape, pairwise_cons] at apart
      rw [shape] at member
      rcases mem_cons.mp member with rfl | behind
      · exact worse
      · exact trans_trichotomous_right worse (apart.1 other behind)

/-- What an incoming order does to either side of a book. -/
theorem WellFormed.take_sides (valid : book.WellFormed) (taker : Taker) (quantity : Quantity)
    (rests : Bool) :
    let walk := book.matchTaker taker quantity
    let after := (book.take taker quantity rests).1
    after.side taker.side.opposite = walk.left ∧
      (walk.remaining ≠ 0 ∧ rests = true →
        QueuedIn taker.side (book.side taker.side)
          ⟨taker.id, taker.side, taker.limit, walk.remaining⟩ (after.side taker.side)) ∧
      (walk.remaining = 0 ∨ rests = false → after.side taker.side = book.side taker.side) := by
  intro walk after
  have crossed := valid.matched taker quantity
  by_cases queues : walk.remaining ≠ 0 ∧ rests = true
  · have rested : after = (book.setSide taker.side.opposite walk.left).rest
        ⟨taker.id, taker.side, taker.limit, walk.remaining⟩ :=
      congrArg Prod.fst (if_pos queues)
    have queued := crossed.rest_queued ⟨taker.id, taker.side, taker.limit, walk.remaining⟩
    rw [setSide_other] at queued
    rw [rested]
    refine ⟨?_, fun _ => queued, fun idle => ?_⟩
    · rw [Book.rest, setSide_opposite, setSide_same]
    · rcases idle with filled | never
      · exact absurd filled queues.1
      · rw [never] at queues
        exact absurd queues.2 Bool.false_ne_true
  · have left : after = book.setSide taker.side.opposite walk.left :=
      congrArg Prod.fst (if_neg queues)
    rw [left, setSide_same, setSide_other]
    exact ⟨rfl, fun unfilled => absurd unfilled queues, fun _ => rfl⟩

end Book

namespace BaselineStore

/-- One side's part of the listed resting orders. -/
def restingOn (store : BaselineStore) (side : Side) : List Order :=
  store.restingOrders.filter (fun order => order.side = side)

theorem Valid.restingOn_eq (valid : store.Valid) (side : Side) :
    store.restingOn side = store.view.side side :=
  valid.book.side_filter side

/-- An incoming order as the listed resting orders show it. -/
theorem Valid.take_listed (valid : store.Valid) {taker : Taker} {quantity : Quantity}
    {rests : Bool} {outcome : BaselineStore × List Trade}
    (agrees : Agrees Valid view outcome (store.view.take taker quantity rests)) :
    let opposite := store.restingOn taker.side.opposite
    let walk := sweep taker opposite quantity
    outcome.2 = walk.trades ∧ outcome.1.restingOn taker.side.opposite = walk.left ∧
      Takes taker opposite outcome.2 (outcome.1.restingOn taker.side.opposite) ∧
      (walk.remaining ≠ 0 ∧ rests = true →
        QueuedIn taker.side (store.restingOn taker.side)
          ⟨taker.id, taker.side, taker.limit, walk.remaining⟩ (outcome.1.restingOn taker.side)) ∧
      (walk.remaining = 0 ∨ rests = false →
        outcome.1.restingOn taker.side = store.restingOn taker.side) := by
  obtain ⟨left, queued, idle⟩ := valid.book.take_sides taker quantity rests
  have trades := agrees.answer
  rw [Book.take_trades] at trades
  simp only [agrees.valid.restingOn_eq, valid.restingOn_eq, agrees.view, trades, left]
  exact ⟨rfl, rfl, sweep_takes taker _ quantity, queued, idle⟩

/-- Price-time priority in full. A fresh order makes the trades of the greedy walk over the
opposite orders in their listed order; these are left as the walk leaves them; on its own side
only the remainder of a limit order that may rest is queued. An order that already rests does
nothing. -/
theorem incoming_walks (ops : List BookOp) (id : OrderId) (side : Side) (price : Price)
    (quantity : Quantity) (tif : TimeInForce) :
    let store := empty.applyAll ops
    let opposite := store.restingOn side.opposite
    let limited := store.addLimit id side price quantity tif
    let market := store.addMarket id side quantity
    (store.contains id = true → limited = (store, []) ∧ market = (store, [])) ∧
      (store.contains id = false →
        (let limit : Taker := ⟨id, side, price, false⟩
          let walk := sweep limit opposite quantity
          limited.2 = walk.trades ∧ limited.1.restingOn side.opposite = walk.left ∧
            Takes limit opposite limited.2 (limited.1.restingOn side.opposite) ∧
            (walk.remaining ≠ 0 ∧ tif = .gtc →
              QueuedIn side (store.restingOn side) ⟨id, side, price, walk.remaining⟩
                (limited.1.restingOn side)) ∧
            (walk.remaining = 0 ∨ tif = .ioc →
              limited.1.restingOn side = store.restingOn side)) ∧
        (let taker : Taker := ⟨id, side, 0, true⟩
          let walk := sweep taker opposite quantity
          market.2 = walk.trades ∧ market.1.restingOn side.opposite = walk.left ∧
            Takes taker opposite market.2 (market.1.restingOn side.opposite) ∧
            market.1.restingOn side = store.restingOn side)) := by
  intro store opposite limited market
  have valid : store.Valid := valid_empty.applyAll ops
  have known := valid.contains_eq id
  refine ⟨?_, ?_⟩
  · intro resting
    rw [resting] at known
    have ignored := fun limit isMarket =>
      refines.incoming_duplicate valid known.symm side limit isMarket quantity
    simp only [limited, market, BaselineStore.addLimit, BaselineStore.addMarket, ignored]
    exact ⟨rfl, trivial⟩
  · intro fresh
    rw [fresh] at known
    have added := valid.addLimit id side price quantity tif
    have bought := valid.addMarket id side quantity
    rw [Book.addLimit_fresh known.symm] at added
    rw [Book.addMarket_fresh known.symm] at bought
    obtain ⟨trades, left, takes, queued, idle⟩ := valid.take_listed added
    obtain ⟨trades', left', takes', _, idle'⟩ := valid.take_listed bought
    refine ⟨⟨trades, left, takes, ?_, ?_⟩, trades', left', takes', idle' (Or.inr rfl)⟩
    · intro rests
      exact queued ⟨rests.1, decide_eq_true rests.2⟩
    · rintro (filled | never)
      · exact idle (Or.inl filled)
      · exact idle (Or.inr (by rw [never]; rfl))

end BaselineStore

/- A modify that loses its place, in each storage: the same calls on the same containers. -/
section Requeue

variable {id : OrderId} {order : Order} {newPrice : Price} {newQuantity : Quantity}
  (positive : newQuantity ≠ 0) (moved : ¬ (newPrice = order.price ∧ newQuantity ≤ order.quantity))

include positive moved

end Requeue

namespace OrderBook

variable {book : OrderBook} {id : OrderId} {newPrice : Price} {newQuantity : Quantity}

section Requeue

variable (valid : book.Valid) {order : Order} (found : book.view.find? id = some order)
  (positive : newQuantity ≠ 0) (moved : ¬ (newPrice = order.price ∧ newQuantity ≤ order.quantity))
  (applicable : book.canApplyModify id newPrice newQuantity = true)

include valid found positive moved applicable

end Requeue

theorem Valid.restingOrders_eq (valid : book.Valid) :
    book.restingOrders = book.view.restingOrders := by
  rw [restingOrders, valid.observe_eq]
  rfl

end OrderBook

end Qsl
