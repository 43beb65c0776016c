import Qsl.BaselineRefinement
import Qsl.StoreRefinement

namespace Qsl.BaselineStore

open List

def apply (store : BaselineStore) : BookOp → BaselineStore × BookReply
  | .addLimit id side price quantity tif =>
    let (after, trades) := store.addLimit id side price quantity tif
    (after, .traded trades)
  | .addMarket id side quantity =>
    let (after, trades) := store.addMarket id side quantity
    (after, .traded trades)
  | .cancel id =>
    let (after, found) := store.cancel id
    (after, .cancelled found)
  | .modify id newPrice newQuantity =>
    let (after, trades) := store.modify id newPrice newQuantity
    (after, .traded trades)

def observe (store : BaselineStore) : Observation where
  restingOrders := store.restingOrders
  orderCount := store.orderCount
  contains := store.contains
  bestBid := store.bestBid
  bestAsk := store.bestAsk
  quantityAt := store.quantityAt
  bidLevels := store.bidLevels
  askLevels := store.askLevels
  fillCount := store.fillCount

theorem refines : Refines Valid view (fun id store => store.contains id) matchBaseline where
  book := fun _ valid => valid.book
  contains := fun _ id valid => valid.contains_eq id
  matched := fun _ _ _ valid sided => valid.matchBaseline sided

section Calls

variable {store : BaselineStore} (valid : store.Valid)

include valid

theorem Valid.addLimit (id : OrderId) (side : Side) (price : Price) (quantity : Quantity)
    (tif : TimeInForce) :
    Agrees Valid view (store.addLimit id side price quantity tif)
      (store.view.addLimit id side price quantity tif) := by
  refine refines.addLimit valid (fun matched => matched.rest id side price) ?_
  intro known rests matched kept left
  obtain ⟨unused, positive, apart⟩ := valid.book.remainder known rests.1
  rw [← left] at unused apart
  exact kept.rest unused positive apart

theorem Valid.addMarket (id : OrderId) (side : Side) (quantity : Quantity) :
    Agrees Valid view (store.addMarket id side quantity)
      (store.view.addMarket id side quantity) :=
  refines.addMarket valid id side quantity

theorem Valid.cancel (id : OrderId) :
    Agrees Valid view (store.cancel id) (store.view.cancel id) := by
  have erased := refines.cancel valid (store.index.find? id) _ rfl
    (fun _ found => valid.eraseRestingOrder (valid.indexed.find?.mp found))
  rw [BaselineStore.cancel]
  cases found : store.index.find? id <;> simpa only [found] using erased

theorem Valid.modify (id : OrderId) (newPrice : Price) (newQuantity : Quantity) :
    Agrees Valid view (store.modify id newPrice newQuantity)
      (store.view.modify id newPrice newQuantity) := by
  have cancelled := valid.cancel id
  have same := valid.contains_eq id
  rw [BaselineStore.contains, OrderedMap.contains] at same
  rw [BaselineStore.modify, Book.modify]
  cases found : store.index.find? id with
  | none =>
    rw [found] at same
    rw [Book.find?_eq_none.mpr same.symm]
    exact ⟨valid, rfl, rfl⟩
  | some loc =>
    obtain ⟨node, pointed, order, sided, priced⟩ :=
      valid.find?_order (valid.indexed.find?.mp found)
    have removed : (store.cancel id).1.view = store.view.remove id := by
      rw [cancelled.view, Book.cancel, ← same, found]
      rfl
    rw [order]
    simp only [pointed, Option.map_some, Option.getD_some, sided, priced]
    split
    · exact ⟨cancelled.1, removed, rfl⟩
    · rename_i positive
      split
      · have written := valid.setQuantity (valid.indexed.find?.mp found)
          ((quantity_pos newQuantity).mpr positive)
        exact ⟨written.1, written.2, rfl⟩
      · rw [← removed]
        exact Valid.addLimit cancelled.1 id loc.side newPrice newQuantity .gtc

/-- Every call keeps the invariant and does what the priority book does. -/
theorem Valid.apply (op : BookOp) :
    Agrees Valid view (store.apply op) (store.view.apply op) := by
  cases op with
  | addLimit id side price quantity tif =>
    exact (valid.addLimit id side price quantity tif).reply BookReply.traded
  | addMarket id side quantity => exact (valid.addMarket id side quantity).reply BookReply.traded
  | cancel id => exact (valid.cancel id).reply BookReply.cancelled
  | modify id newPrice newQuantity =>
    exact (valid.modify id newPrice newQuantity).reply BookReply.traded

end Calls

section Observe

variable {store : BaselineStore}

theorem levelQuantity_eq (level : Level) :
    levelQuantity level = totalQuantity (levelOrders level) := by
  have folded := totalQuantity_foldl (levelOrders level) 0
  rw [levelOrders, foldl_map, UInt64.zero_add] at folded
  exact folded

theorem Valid.levelMap (valid : store.Valid) (side : Side) :
    LevelMap store.view (store.levels side) levelOrders where
  orders := view_side store side
  occupied := by
    intro entry member empty
    exact valid.occupied side entry member (map_eq_nil_iff.mp empty)
  filed := valid.filed_orders side

theorem Valid.quantityAt_eq (valid : store.Valid) (side : Side) (price : Price) :
    store.quantityAt side price = store.view.quantityAt side price := by
  rw [(valid.levelMap side).quantityAt, BaselineStore.quantityAt]
  cases (store.levels side).find? price with
  | none => rfl
  | some level => exact levelQuantity_eq level

theorem Valid.collectLevels (valid : store.Valid) (side : Side) :
    BaselineStore.collectLevels (store.levels side) = store.view.levelViews side := by
  rw [(valid.levelMap side).levelViews valid.book, BaselineStore.collectLevels]
  apply map_congr_left
  intro entry _
  rw [levelQuantity_eq]

/-- Counting at one level is the number of trades of the walk over it. -/
theorem countLevelMatches_eq {taker : Taker} {price : Price} (crossing : taker.crosses price = true)
    (level : Level) (quantity : Quantity) (filed : ∀ node ∈ level, node.order.price = price) :
    countLevelMatches level quantity =
      ((sweep taker (levelOrders level) quantity).trades.length,
        (sweep taker (levelOrders level) quantity).remaining) := by
  induction level generalizing quantity with
  | nil => rfl
  | cons maker queued ih =>
    have priced := filed maker mem_cons_self
    have rest := ih (quantity - min quantity maker.order.quantity)
      (fun node member => filed node (mem_cons_of_mem _ member))
    rw [countLevelMatches, levelOrders, map_cons]
    by_cases filled : quantity = 0
    · rw [if_pos filled, filled, sweep_zero]
      rfl
    · obtain ⟨trades, _, remaining⟩ := sweep_cons taker (levelOrders queued) filled
        (priced ▸ crossing : taker.crosses maker.order.price = true)
      rw [if_neg filled, rest]
      change _ = ((sweep taker (maker.order :: levelOrders queued) quantity).trades.length,
        (sweep taker (maker.order :: levelOrders queued) quantity).remaining)
      rw [trades, remaining, length_cons]

theorem countMatches_eq (taker : Taker) (entries : List (Price × Level)) (quantity : Quantity)
    (occupied : ∀ entry ∈ entries, entry.2 ≠ [])
    (filed : ∀ entry ∈ entries, ∀ node ∈ entry.2, node.order.price = entry.1) :
    countMatches (taker.side == .buy) taker.isMarket taker.limit entries quantity =
      (sweep taker (entries.flatMap (fun entry => levelOrders entry.2)) quantity).trades.length := by
  induction entries generalizing quantity with
  | nil => rfl
  | cons entry worse ih =>
    have here := filed entry mem_cons_self
    have orders : ∀ order ∈ levelOrders entry.2, order.price = entry.1 := by
      intro order member
      obtain ⟨node, inside, rfl⟩ := mem_map.mp member
      exact here node inside
    rw [countMatches, flatMap_cons]
    by_cases filled : quantity = 0
    · rw [if_pos filled, filled, sweep_zero]
      rfl
    rw [if_neg filled]
    change (if (!taker.crosses entry.1) = true then _ else _) = _
    cases crossing : taker.crosses entry.1 with
    | true =>
      have whole := sweep_level_append crossing orders
        (worse.flatMap (fun entry => levelOrders entry.2)) quantity
      rw [whole.1, length_append, countLevelMatches_eq crossing entry.2 quantity here]
      have rest := ih (sweep taker (levelOrders entry.2) quantity).remaining
        (fun later member => occupied later (mem_cons_of_mem _ member))
        (fun later member => filed later (mem_cons_of_mem _ member))
      rw [← rest]
      rfl
    | false =>
      obtain ⟨node, queued, level⟩ :=
        exists_cons_of_ne_nil (occupied entry mem_cons_self)
      have priced := here node (by rw [level]; exact mem_cons_self)
      rw [level, levelOrders, map_cons, cons_append,
        sweep_stop taker (Or.inr (priced ▸ crossing))]
      rfl

theorem Valid.fillCount_eq (valid : store.Valid) (takerSide : Side) (limit : Price)
    (isMarket : Bool) (quantity : Quantity) :
    store.fillCount takerSide limit isMarket quantity =
      store.view.fillCount takerSide limit isMarket quantity := by
  rw [BaselineStore.fillCount, Book.fillCount, Book.matchTaker, view_side]
  exact countMatches_eq ⟨0, takerSide, limit, isMarket⟩ _ quantity (valid.occupied _)
    (fun entry member node inside => (valid.filed _ entry member node inside).2)

/-- Every observer answers as the priority book does. -/
theorem Valid.observe_eq (valid : store.Valid) : store.observe = store.view.observe := by
  have count : store.orderCount = store.view.restingOrders.length := by
    have ids := congrArg List.length store.located_ids
    rw [length_map, length_map] at ids
    exact valid.indexed.size_eq.trans ids
  apply Observation.ext
  · rfl
  · exact count
  · exact funext valid.contains_eq
  · exact (valid.levelMap .buy).bestPrice
  · exact (valid.levelMap .sell).bestPrice
  · exact funext (fun side => funext (valid.quantityAt_eq side))
  · exact valid.collectLevels .buy
  · exact valid.collectLevels .sell
  · funext takerSide limit isMarket quantity
    exact valid.fillCount_eq takerSide limit isMarket quantity

end Observe

/-- The store after a sequence of calls. -/
def applyAll (store : BaselineStore) (ops : List BookOp) : BaselineStore :=
  ops.foldl (fun store op => (store.apply op).1) store

theorem Valid.applyAll {store : BaselineStore} (valid : store.Valid) (ops : List BookOp) :
    (store.applyAll ops).Valid := by
  induction ops generalizing store with
  | nil => exact valid
  | cons op ops ih => exact ih (valid.apply op).valid

/-- Any calls on an empty book leave every representation condition in place, an
uncrossed book, and observers that are functions of the resting orders. -/
theorem applyAll_represents (ops : List BookOp) :
    let store := empty.applyAll ops
    store.Valid ∧
      (∀ bid ask, store.bestBid = some bid → store.bestAsk = some ask → bid < ask) ∧
      store.observe.From store.restingOrders := by
  have valid := valid_empty.applyAll ops
  have answers : (empty.applyAll ops).observe.From (empty.applyAll ops).view.restingOrders := by
    rw [valid.observe_eq]
    exact valid.book.observe_from
  refine ⟨valid, ?_, answers⟩
  intro bid ask bestBid bestAsk
  obtain ⟨⟨buyer, inBids, buys, bids⟩, _⟩ := (answers.bestBid bid).mp bestBid
  obtain ⟨⟨seller, inAsks, sells, asks⟩, _⟩ := (answers.bestAsk ask).mp bestAsk
  rw [← bids, ← asks]
  exact valid.book.uncrossed buyer (valid.book.mem_side.mpr ⟨inBids, buys⟩)
    seller (valid.book.mem_side.mpr ⟨inAsks, sells⟩)


end Qsl.BaselineStore
