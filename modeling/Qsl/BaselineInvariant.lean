import Qsl.BaselineMatching

namespace Qsl.BaselineStore

open List

/-- The price-time priority book that the containers hold. -/
def view (store : BaselineStore) : Book := ⟨appendOrders store.bids, appendOrders store.asks⟩

theorem view_side (store : BaselineStore) (side : Side) :
    store.view.side side = appendOrders (store.levels side) := by
  cases side <;> rfl

/-- Every resting order with the place it rests at. -/
def located (store : BaselineStore) : List (OrderId × Locator) :=
  locatedSide .buy store.bids.entries ++ locatedSide .sell store.asks.entries

theorem located_perm (store : BaselineStore) (side : Side) :
    store.located.Perm (locatedSide side (store.levels side).entries ++
      locatedSide side.opposite (store.levels side.opposite).entries) := by
  cases side
  · exact List.Perm.refl _
  · exact perm_append_comm

/-- The representation invariant: no empty level, every order filed under its
own side and price, an exact index, list nodes at distinct live addresses, and
a well-formed book. -/
structure Valid (store : BaselineStore) : Prop where
  occupied : ∀ side, ∀ entry ∈ (store.levels side).entries, entry.2 ≠ []
  filed : ∀ side, ∀ entry ∈ (store.levels side).entries, ∀ node ∈ entry.2,
    node.order.side = side ∧ node.order.price = entry.1
  indexed : store.index.Indexes store.located
  distinct : (store.located.map (fun pair => pair.2.it)).Nodup
  allocated : ∀ pair ∈ store.located, pair.2.it < store.nextAddress
  book : store.view.WellFormed

theorem valid_empty : Valid empty where
  occupied := by intro side entry member; cases side <;> cases member
  filed := by intro side entry member; cases side <;> cases member
  indexed := OrderedMap.indexes_empty
  distinct := nodup_nil
  allocated := by intro pair member; cases member
  book := Book.wellFormed_empty

section

variable {store : BaselineStore} (valid : store.Valid) (side : Side)

include valid side

/-- A change of one side: the conditions to check are those of that side alone. -/
theorem Valid.replace (levels : OrderedMap Price Level (Better side)) (index : Index) (next : Nat)
    (occupied : ∀ entry ∈ levels.entries, entry.2 ≠ [])
    (filed : ∀ entry ∈ levels.entries, ∀ node ∈ entry.2,
      node.order.side = side ∧ node.order.price = entry.1)
    (indexed : index.Indexes (locatedSide side levels.entries ++
      locatedSide side.opposite (store.levels side.opposite).entries))
    (distinct : ((locatedSide side levels.entries ++
      locatedSide side.opposite (store.levels side.opposite).entries).map
        (fun pair => pair.2.it)).Nodup)
    (allocated : ∀ pair ∈ locatedSide side levels.entries, pair.2.it < next)
    (grown : store.nextAddress ≤ next)
    (book : (store.view.setSide side (appendOrders levels)).WellFormed) :
    Valid { store.setLevels side levels with index := index, nextAddress := next } := by
  have oldAllocated : ∀ pair ∈ locatedSide side.opposite (store.levels side.opposite).entries,
      pair.2.it < next := by
    intro pair member
    have low := valid.allocated pair
      ((store.located_perm side).mem_iff.mpr (mem_append_right _ member))
    omega
  have oldOccupied := valid.occupied side.opposite
  have oldFiled := valid.filed side.opposite
  cases side with
  | buy =>
    refine ⟨?_, ?_, indexed, distinct, ?_, book⟩
    · intro side
      cases side
      · exact occupied
      · exact oldOccupied
    · intro side
      cases side
      · exact filed
      · exact oldFiled
    · intro pair member
      exact (mem_append.mp member).elim (allocated pair) (oldAllocated pair)
  | sell =>
    refine ⟨?_, ?_, indexed.perm perm_append_comm, ?_, ?_, book⟩
    · intro side
      cases side
      · exact oldOccupied
      · exact occupied
    · intro side
      cases side
      · exact oldFiled
      · exact filed
    · exact (perm_append_comm.map _).nodup_iff.mp distinct
    · intro pair member
      exact (mem_append.mp member).elim (oldAllocated pair) (allocated pair)

theorem Valid.indexed_side :
    store.index.Indexes (locatedSide side (store.levels side).entries ++
      locatedSide side.opposite (store.levels side.opposite).entries) :=
  valid.indexed.perm (store.located_perm side)

theorem Valid.distinct_side :
    ((locatedSide side (store.levels side).entries ++
      locatedSide side.opposite (store.levels side.opposite).entries).map
        (fun pair => pair.2.it)).Nodup :=
  ((store.located_perm side).map _).nodup_iff.mp valid.distinct

end

theorem located_ids (store : BaselineStore) :
    store.located.map Prod.fst = store.view.restingOrders.map Order.id := by
  have sides : ∀ side (entries : List (Price × Level)), (locatedSide side entries).map Prod.fst =
      (entries.flatMap (fun entry => entry.2.map ListNode.order)).map Order.id := by
    intro side entries
    rw [locatedSide, map_flatMap, map_flatMap]
    apply flatMap_congr
    intro entry _
    rw [locatedLevel, map_map, map_map]
    rfl
  rw [located, Book.restingOrders, map_append, map_append, sides, sides]
  rfl

theorem Valid.contains_eq {store : BaselineStore} (valid : store.Valid) (id : OrderId) :
    store.contains id = store.view.contains id := by
  rw [Bool.eq_iff_iff, Book.contains_iff, ← located_ids]
  exact valid.indexed.contains_iff

theorem view_setLevels (store : BaselineStore) (side : Side)
    (levels : OrderedMap Price Level (Better side)) (index : Index) (next : Nat) :
    view { store.setLevels side levels with index := index, nextAddress := next } =
      store.view.setSide side (appendOrders levels) := by
  cases side <;> rfl

/-- Matching leaves a valid store that holds what the sweep leaves. -/
theorem Valid.matchBaseline {store : BaselineStore} (valid : store.Valid) {side : Side}
    {ctx : MatchContext} (sided : ctx.taker.side = side) :
    let swept := store.view.matchTaker ctx.taker ctx.quantity
    (BaselineStore.matchBaseline side store ctx).2 = ctx.after swept ∧
      (BaselineStore.matchBaseline side store ctx).1.Valid ∧
      (BaselineStore.matchBaseline side store ctx).1.view =
        store.view.setSide side.opposite swept.left := by
  have means : WalkMeans side.opposite (locatedSide side (store.levels side).entries)
      (locatedSide side.opposite (store.levels side.opposite).entries)
      (store.levels side.opposite).entries store.index
      ((store.levels side.opposite).entries.map
        (fun entry => (entry.1, levelOrders entry.2))) := by
    refine ⟨rfl, valid.occupied _, valid.filed _, ?_, List.Sublist.refl _⟩
    have exact := valid.indexed_side side.opposite
    rwa [Side.opposite_opposite] at exact
  obtain ⟨recorded, remaining, left, orders⟩ := matchOrderedLevels_sweeps
    (walkSpec side.opposite _ _) ⟨store.levels side.opposite, store.index, ctx⟩ means
  have whole : ((store.levels side.opposite).entries.map
      (fun entry => (entry.1, levelOrders entry.2))).flatMap Prod.snd =
        store.view.side ctx.taker.side.opposite := by
    rw [sided, view_side, flatMap_map]
    rfl
  rw [whole] at recorded orders
  have kept : appendOrders (matchAgainst (store.levels side.opposite) store.index ctx).opposite =
      (store.view.matchTaker ctx.taker ctx.quantity).left := by
    rw [Book.matchTaker, ← orders, left.orders, flatMap_map]
    rfl
  refine ⟨recorded, ?_, ?_⟩
  · refine valid.replace side.opposite _ _ _ left.occupied left.filed ?_ ?_ ?_ ?_ ?_
    · rw [Side.opposite_opposite]
      exact left.index
    · have distinct := valid.distinct_side side.opposite
      exact distinct.sublist ((left.located.append_right _).map _)
    · intro pair member
      rw [nextAddress_setLevels]
      exact valid.allocated pair ((store.located_perm side.opposite).mem_iff.mpr
        (mem_append_left _ (left.located.subset member)))
    · rw [nextAddress_setLevels]
    · change (store.view.setSide side.opposite (appendOrders
        (matchAgainst (store.levels side.opposite) store.index ctx).opposite)).WellFormed
      rw [kept, ← sided]
      exact valid.book.matched ctx.taker ctx.quantity
  · exact (view_setLevels store side.opposite _ _ _).trans (congrArg _ kept)

end Qsl.BaselineStore
