import Qsl.IntrusiveMatching
import Qsl.PriorityInvariant

namespace Qsl.IntrusiveStore

open List

/-- The price-time priority book that the node lists hold. -/
def view (store : IntrusiveStore) : Book :=
  ⟨appendOrders store.pools store.bids, appendOrders store.pools store.asks⟩

theorem view_side (store : IntrusiveStore) (side : Side) :
    store.view.side side = appendOrders store.pools (store.levels side) := by
  cases side <;> rfl

/-- The cells of a side, best level first. -/
def sideCells {lt : Price → Price → Prop} (levels : OrderedMap Price Level lt)
    (cells : Price → List Cell) : List Cell :=
  levels.collect (fun price _ => cells price)

theorem mem_sideCells {lt : Price → Price → Prop} {levels : OrderedMap Price Level lt}
    {cells : Price → List Cell} {cell : Cell} :
    cell ∈ sideCells levels cells ↔ ∃ entry ∈ levels.entries, cell ∈ cells entry.1 :=
  OrderedMap.mem_collect

/-- Which cells rest where: every level is a list of its cells, and the pools and
the index account for the cells of both sides. -/
structure Placed (capacity : Nat) (store : IntrusiveStore) (cells : Side → Price → List Cell) :
    Prop where
  levels : ∀ side, ∀ entry ∈ (store.levels side).entries,
    LevelShape side store.pools entry (cells side entry.1)
  accounts : Accounts capacity store.pools
    (sideCells store.bids (cells .buy) ++ sideCells store.asks (cells .sell))

/-- The representation invariant of a book over pools of the given capacity. -/
structure Valid (capacity : Nat) (store : IntrusiveStore) : Prop where
  placed : ∃ cells, Placed capacity store cells
  book : store.view.WellFormed

theorem valid_empty (capacity : Nat) : Valid capacity (empty capacity) where
  placed := by
    refine ⟨fun _ _ => [], ?_, ?_⟩
    · intro side entry member
      cases side <;> cases member
    · refine ⟨rfl, rfl, SlotPool.uses_new capacity, SlotPool.uses_new capacity,
        OrderedMap.indexes_empty, ?_⟩
      intro cell member
      cases member
  book := Book.wellFormed_empty

section Placed

variable {capacity : Nat} {store : IntrusiveStore} {cells : Side → Price → List Cell}
variable (placed : Placed capacity store cells)

include placed

theorem Placed.accounts_side (side : Side) :
    Accounts capacity store.pools (sideCells (store.levels side) (cells side) ++
      sideCells (store.levels side.opposite) (cells side.opposite)) := by
  cases side
  · exact placed.accounts
  · exact placed.accounts.perm perm_append_comm

theorem Placed.view_side (side : Side) :
    store.view.side side = (sideCells (store.levels side) (cells side)).map Cell.order := by
  rw [IntrusiveStore.view_side, appendOrders, sideCells, OrderedMap.collect, map_flatMap]
  apply flatMap_congr
  intro entry member
  apply (placed.accounts_side side).levelOrders _ (placed.levels side entry member).holds
  apply List.Sublist.trans _ (sublist_append_left _ _)
  exact sublist_flatten_of_mem (mem_map_of_mem member)

theorem Placed.restingOrders :
    store.view.restingOrders =
      (sideCells store.bids (cells .buy) ++ sideCells store.asks (cells .sell)).map Cell.order := by
  rw [map_append]
  exact congrArg₂ (· ++ ·) (placed.view_side .buy) (placed.view_side .sell)

theorem Placed.contains_eq (id : OrderId) : store.contains id = store.view.contains id := by
  rw [Bool.eq_iff_iff, Book.contains_iff, placed.restingOrders, IntrusiveStore.contains,
    placed.accounts.index.contains_iff, map_map, map_map]
  rfl

/-- The number of resting orders, and what it leaves of each pool. -/
theorem Placed.counts :
    store.orderCount = store.view.restingOrders.length ∧
      store.pools.orders.available + store.orderCount = capacity ∧
      store.pools.nodes.available + store.orderCount = capacity := by
  have size := placed.accounts.index.size_eq
  have orders := placed.accounts.orders.available_add
  have nodes := placed.accounts.nodes.available_add
  rw [placed.accounts.orderCapacity] at orders
  rw [placed.accounts.nodeCapacity] at nodes
  rw [length_map] at size orders nodes
  rw [placed.restingOrders, length_map, orderCount, size]
  exact ⟨rfl, orders, nodes⟩

/-- A change of one side: its levels and the accounts are to be checked, and that
the nodes of the other side were left alone. -/
theorem Placed.replace (side : Side) {levels : OrderedMap Price Level (Better side)}
    {pools : Pools} {cells' : Price → List Cell}
    (shapes : ∀ entry ∈ levels.entries, LevelShape side pools entry (cells' entry.1))
    (frame : ∀ cell ∈ sideCells (store.levels side.opposite) (cells side.opposite),
      pools.nodes.slots cell.node = store.pools.nodes.slots cell.node)
    (accounts : Accounts capacity pools (sideCells levels cells' ++
      sideCells (store.levels side.opposite) (cells side.opposite))) :
    Placed capacity { store.setLevels side levels with pools := pools }
        (Function.update cells side cells') ∧
      view { store.setLevels side levels with pools := pools } =
        store.view.setSide side ((sideCells levels cells').map Cell.order) := by
  have kept : ∀ entry ∈ (store.levels side.opposite).entries,
      LevelShape side.opposite pools entry (cells side.opposite entry.1) := by
    intro entry member
    apply (placed.levels side.opposite entry member).congr
    intro cell inside
    exact frame cell (mem_sideCells.mpr ⟨entry, member, inside⟩)
  have other := placed.view_side side.opposite
  have after : Placed capacity { store.setLevels side levels with pools := pools }
      (Function.update cells side cells') := by
    cases side with
    | buy =>
      refine ⟨?_, accounts⟩
      intro side entry member
      cases side
      · exact shapes entry member
      · exact kept entry member
    | sell =>
      refine ⟨?_, accounts.perm perm_append_comm⟩
      intro side entry member
      cases side
      · exact kept entry member
      · exact shapes entry member
  refine ⟨after, ?_⟩
  apply Book.eq_of_side
  intro which
  rw [after.view_side]
  rcases side.eq_or_eq_opposite which with rfl | rfl
  · rw [Book.setSide_same, Function.update_self]
    cases which <;> rfl
  · rw [Book.setSide_opposite, Function.update_of_ne side.opposite_ne, other]
    cases side <;> rfl

end Placed

section Valid

variable {capacity : Nat} {store : IntrusiveStore}
variable (valid : Valid capacity store)

include valid

theorem Valid.contains_eq (id : OrderId) : store.contains id = store.view.contains id := by
  obtain ⟨cells, placed⟩ := valid.placed
  exact placed.contains_eq id

/-- Free slots and resting orders make up the capacity of both pools. -/
theorem Valid.counts :
    store.orderCount = store.view.restingOrders.length ∧
      store.pools.orders.available + store.orderCount = capacity ∧
      store.pools.nodes.available + store.orderCount = capacity := by
  obtain ⟨cells, placed⟩ := valid.placed
  exact placed.counts

theorem Valid.hasCapacity_iff : store.hasCapacity = false ↔ store.orderCount = capacity := by
  obtain ⟨_, orders, nodes⟩ := valid.counts
  rw [hasCapacity, ← Bool.not_eq_true, Bool.and_eq_true, decide_eq_true_eq, decide_eq_true_eq]
  omega

/-- Matching leaves a valid store that holds what the sweep leaves. -/
theorem Valid.matchOpposite {side : Side} {ctx : MatchContext} (sided : ctx.taker.side = side) :
    let swept := store.view.matchTaker ctx.taker ctx.quantity
    (IntrusiveStore.matchOpposite side store ctx).2 = ctx.after swept ∧
      Valid capacity (IntrusiveStore.matchOpposite side store ctx).1 ∧
      (IntrusiveStore.matchOpposite side store ctx).1.view =
        store.view.setSide side.opposite swept.left := by
  obtain ⟨cells, placed⟩ := valid.placed
  have accounts := placed.accounts_side side.opposite
  rw [Side.opposite_opposite] at accounts
  have means : WalkMeans capacity side.opposite store.pools.nodes.slots
      (sideCells (store.levels side) (cells side)) (store.levels side.opposite).entries store.pools
      ((store.levels side.opposite).entries.map
        (fun entry => (entry.1, (cells side.opposite entry.1).map Cell.order))) :=
    ⟨cells side.opposite, ⟨OrderedMap.keys_nodup _, placed.levels side.opposite, accounts,
      fun _ _ => rfl⟩, rfl⟩
  obtain ⟨recorded, remaining, ⟨left, walking, shape⟩, orders⟩ := matchOrderedLevels_sweeps
    (walkSpec capacity side.opposite _ _) ⟨store.levels side.opposite, store.pools, ctx⟩ means
  have whole : ((store.levels side.opposite).entries.map
      (fun entry => (entry.1, (cells side.opposite entry.1).map Cell.order))).flatMap Prod.snd =
        store.view.side ctx.taker.side.opposite := by
    rw [sided, placed.view_side, sideCells, OrderedMap.collect, map_flatMap, flatMap_map]
  rw [whole] at recorded orders
  have kept : (sideCells (matchAgainst (store.levels side.opposite) store.pools ctx).opposite
      left).map Cell.order = (store.view.matchTaker ctx.taker ctx.quantity).left := by
    rw [Book.matchTaker, ← orders, shape, flatMap_map, sideCells, OrderedMap.collect,
      map_flatMap]
    rfl
  obtain ⟨after, view⟩ := placed.replace side.opposite walking.levels
    (by rw [Side.opposite_opposite]; exact walking.frame)
    (by rw [Side.opposite_opposite]; exact walking.accounts)
  have viewed : (IntrusiveStore.matchOpposite side store ctx).1.view =
      store.view.setSide side.opposite (store.view.matchTaker ctx.taker ctx.quantity).left :=
    view.trans (congrArg _ kept)
  refine ⟨recorded, ⟨⟨_, after⟩, ?_⟩, viewed⟩
  rw [viewed, ← sided]
  exact valid.book.matched ctx.taker ctx.quantity

end Valid

end Qsl.IntrusiveStore
