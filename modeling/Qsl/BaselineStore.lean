import Qsl.Matching

namespace Qsl

/-- A node of a level's `std::list`. Its address is what an iterator to it holds. -/
structure ListNode where
  address : Nat
  order : Order
  deriving DecidableEq, Repr

/-- Side, price and list iterator of a resting order. -/
structure BaselineStore.Locator where
  side : Side
  price : Price
  it : Nat
  deriving DecidableEq, Repr

/-- The containers of the baseline book. `unordered_map` is only ever searched,
so `index` is any map by id; `nextAddress` stands for the node allocator. -/
structure BaselineStore where
  bids : OrderedMap Price (List ListNode) (Better .buy)
  asks : OrderedMap Price (List ListNode) (Better .sell)
  index : OrderedMap OrderId BaselineStore.Locator (· < ·)
  nextAddress : Nat

namespace BaselineStore

abbrev Level := List ListNode

abbrev Index := OrderedMap OrderId Locator (· < ·)

def empty : BaselineStore := ⟨.empty, .empty, .empty, 0⟩

def levels (store : BaselineStore) : (side : Side) → OrderedMap Price Level (Better side)
  | .buy => store.bids
  | .sell => store.asks

def setLevels (store : BaselineStore) : (side : Side) → OrderedMap Price Level (Better side) →
    BaselineStore
  | .buy, levels => { store with bids := levels }
  | .sell, levels => { store with asks := levels }

@[simp] theorem index_setLevels (store : BaselineStore) (side : Side)
    (levels : OrderedMap Price Level (Better side)) :
    (store.setLevels side levels).index = store.index := by
  cases side <;> rfl

@[simp] theorem nextAddress_setLevels (store : BaselineStore) (side : Side)
    (levels : OrderedMap Price Level (Better side)) :
    (store.setLevels side levels).nextAddress = store.nextAddress := by
  cases side <;> rfl

def contains (store : BaselineStore) (id : OrderId) : Bool := store.index.contains id

/-- Loop state of `fill_level`. -/
structure LevelFill where
  level : Level
  index : Index
  ctx : MatchContext

def fillFrontOrder (levelPrice : Price) (fill : LevelFill) : LevelFill :=
  match fill.level with
  | [] => fill
  | maker :: queued =>
    let (ctx, quantity, exhausted) :=
      fillMaker fill.ctx maker.order.id maker.order.quantity levelPrice
    if exhausted then ⟨queued, fill.index.erase maker.order.id, ctx⟩
    else ⟨{ maker with order := { maker.order with quantity := quantity } } :: queued,
      fill.index, ctx⟩

def fillLevelStep (levelPrice : Price) (fill : LevelFill) : Option LevelFill :=
  if fill.ctx.quantity ≠ 0 ∧ fill.level ≠ [] then some (fillFrontOrder levelPrice fill) else none

def fillLevel (level : Level) (levelPrice : Price) (index : Index) (ctx : MatchContext) :
    Level × Index × MatchContext :=
  let final := WhileLoop.run (fillLevelStep levelPrice) (level.length + 1) ⟨level, index, ctx⟩
  (final.level, final.index, final.ctx)

def matchAgainst {lt : Price → Price → Prop} [DecidableRel lt] [IsStrictTotalOrder Price lt]
    (opposite : OrderedMap Price Level lt) (index : Index) (ctx : MatchContext) :
    LevelWalk Level Index lt :=
  matchOrderedLevels fillLevel List.isEmpty ⟨opposite, index, ctx⟩

def matchBaseline (side : Side) (store : BaselineStore) (ctx : MatchContext) :
    BaselineStore × MatchContext :=
  let walk := matchAgainst (store.levels side.opposite) store.index ctx
  ({ store.setLevels side.opposite walk.opposite with index := walk.store }, walk.ctx)

/-- `level_for` followed by `push_back`; the index records the new back iterator. -/
def rest (store : BaselineStore) (id : OrderId) (side : Side) (price : Price)
    (quantity : Quantity) : BaselineStore :=
  let level := ((store.levels side).find? price).getD []
  let node : ListNode := ⟨store.nextAddress, ⟨id, side, price, quantity⟩⟩
  { store.setLevels side ((store.levels side).insert price (level ++ [node])) with
    index := store.index.insert id ⟨side, price, store.nextAddress⟩
    nextAddress := store.nextAddress + 1 }

def addLimit (store : BaselineStore) (id : OrderId) (side : Side) (price : Price)
    (quantity : Quantity) (tif : TimeInForce) : BaselineStore × List Trade :=
  let (matched, result) := matchIncoming store id side price false quantity
    (fun store => store.contains id) matchBaseline
  if shouldRestLimit result tif then (matched.rest id side price result.remainder, result.trades)
  else (matched, result.trades)

def addMarket (store : BaselineStore) (id : OrderId) (side : Side) (quantity : Quantity) :
    BaselineStore × List Trade :=
  let (matched, result) := matchIncoming store id side 0 true quantity
    (fun store => store.contains id) matchBaseline
  (matched, result.trades)

def eraseLevelIfEmpty {lt : Price → Price → Prop} (levels : OrderedMap Price Level lt)
    (price : Price) (level : Level) : OrderedMap Price Level lt :=
  if level.isEmpty then levels.erase price else levels

def eraseFromSide {lt : Price → Price → Prop} [DecidableRel lt] [IsStrictTotalOrder Price lt]
    (levels : OrderedMap Price Level lt) (price : Price) (it : Nat) : OrderedMap Price Level lt :=
  let level := ((levels.find? price).getD []).filter (fun node => node.address ≠ it)
  eraseLevelIfEmpty (levels.insert price level) price level

def eraseRestingOrder (store : BaselineStore) (loc : Locator) : BaselineStore :=
  store.setLevels loc.side (eraseFromSide (store.levels loc.side) loc.price loc.it)

def cancel (store : BaselineStore) (id : OrderId) : BaselineStore × Bool :=
  match store.index.find? id with
  | none => (store, false)
  | some loc => (eraseRestingOrder { store with index := store.index.erase id } loc, true)

/-- The node a locator's iterator points to. -/
def nodeAt (store : BaselineStore) (loc : Locator) : Option ListNode :=
  (((store.levels loc.side).find? loc.price).getD []).find? (fun node => node.address = loc.it)

/-- `loc.it->quantity = quantity`. -/
def setQuantity (store : BaselineStore) (loc : Locator) (quantity : Quantity) : BaselineStore :=
  let level := ((store.levels loc.side).find? loc.price).getD []
  store.setLevels loc.side ((store.levels loc.side).insert loc.price
    (level.map (fun node =>
      if node.address = loc.it then { node with order := { node.order with quantity := quantity } }
      else node)))

def modify (store : BaselineStore) (id : OrderId) (newPrice : Price) (newQuantity : Quantity) :
    BaselineStore × List Trade :=
  match store.index.find? id with
  | none => (store, [])
  | some loc =>
    if newQuantity = 0 then ((store.cancel id).1, [])
    else if newPrice = loc.price ∧
        newQuantity ≤ ((store.nodeAt loc).map (fun node => node.order.quantity)).getD 0 then
      (store.setQuantity loc newQuantity, [])
    else (store.cancel id).1.addLimit id loc.side newPrice newQuantity .gtc

def bestPrice {lt : Price → Price → Prop} (levels : OrderedMap Price Level lt) : Option Price :=
  levels.first?.map Prod.fst

def bestBid (store : BaselineStore) : Option Price := bestPrice store.bids

def bestAsk (store : BaselineStore) : Option Price := bestPrice store.asks

def levelQuantity (level : Level) : QuantityTotal :=
  level.foldl (fun total node => total + node.order.quantity.toUInt64) 0

def quantityAt (store : BaselineStore) (side : Side) (price : Price) : QuantityTotal :=
  match (store.levels side).find? price with
  | none => 0
  | some level => levelQuantity level

def orderCount (store : BaselineStore) : Nat := store.index.size

def countLevelMatches : Level → Quantity → Nat × Quantity
  | [], quantity => (0, quantity)
  | maker :: queued, quantity =>
    if quantity = 0 then (0, quantity)
    else
      let (count, left) := countLevelMatches queued
        (quantity - min quantity maker.order.quantity)
      (count + 1, left)

def countMatches (takerIsBuy isMarket : Bool) (limit : Price) :
    List (Price × Level) → Quantity → Nat
  | [], _ => 0
  | entry :: worse, quantity =>
    if quantity = 0 then 0
    else if !canMatchLevel takerIsBuy isMarket limit entry.1 then 0
    else
      let (count, left) := countLevelMatches entry.2 quantity
      count + countMatches takerIsBuy isMarket limit worse left

def fillCount (store : BaselineStore) (takerSide : Side) (limit : Price) (isMarket : Bool)
    (quantity : Quantity) : Nat :=
  countMatches (takerSide == .buy) isMarket limit (store.levels takerSide.opposite).entries quantity

def collectLevels {lt : Price → Price → Prop} (book : OrderedMap Price Level lt) :
    List LevelView :=
  book.entries.map (fun entry => ⟨entry.1, levelQuantity entry.2⟩)

def bidLevels (store : BaselineStore) : List LevelView := collectLevels store.bids

def askLevels (store : BaselineStore) : List LevelView := collectLevels store.asks

def appendOrders {lt : Price → Price → Prop} (book : OrderedMap Price Level lt) : List Order :=
  book.entries.flatMap (fun entry => entry.2.map ListNode.order)

def restingOrders (store : BaselineStore) : List Order :=
  appendOrders store.bids ++ appendOrders store.asks

end BaselineStore

end Qsl
