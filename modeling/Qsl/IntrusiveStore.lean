import Qsl.Matching
import Qsl.SlotPool
import Qsl.LinkedQueue

namespace Qsl

/-- Side, price and node of a resting order. -/
structure IntrusiveStore.Locator where
  side : Side
  price : Price
  node : Nat
  deriving DecidableEq, Repr

/-- The two pools and the index. A pointer is a slot number; the value of a node is
the pointer to its order. -/
structure IntrusiveStore.Pools where
  orders : SlotPool Order
  nodes : SlotPool (LinkedQueue.Node Nat)
  index : OrderedMap OrderId IntrusiveStore.Locator (· < ·)

/-- The intrusive book. A level is the two ends and the size of its node list. -/
structure IntrusiveStore where
  pools : IntrusiveStore.Pools
  bids : OrderedMap Price LinkedQueue.Ends (Better .buy)
  asks : OrderedMap Price LinkedQueue.Ends (Better .sell)

namespace IntrusiveStore

abbrev Level := LinkedQueue.Ends

abbrev Index := OrderedMap OrderId Locator (· < ·)

def intrusivePoolCapacity : Nat := 65536

/-- An empty book over pools of the given capacity; the code's is
`intrusivePoolCapacity`. -/
def empty (capacity : Nat) : IntrusiveStore :=
  ⟨⟨.new capacity, .new capacity, .empty⟩, .empty, .empty⟩

def levels (store : IntrusiveStore) : (side : Side) → OrderedMap Price Level (Better side)
  | .buy => store.bids
  | .sell => store.asks

def setLevels (store : IntrusiveStore) : (side : Side) → OrderedMap Price Level (Better side) →
    IntrusiveStore
  | .buy, levels => { store with bids := levels }
  | .sell, levels => { store with asks := levels }

def contains (store : IntrusiveStore) (id : OrderId) : Bool := store.pools.index.contains id

def hasCapacity (store : IntrusiveStore) : Bool :=
  store.pools.orders.available > 0 && store.pools.nodes.available > 0

namespace Pools

def appendNode (pools : Pools) (level : Level) (node : Nat) : Pools × Level :=
  let (slots, level) := LinkedQueue.append pools.nodes.slots level node
  ({ pools with nodes := { pools.nodes with slots := slots } }, level)

def unlinkNode (pools : Pools) (level : Level) (node : Nat) : Pools × Level :=
  let (slots, level) := LinkedQueue.unlink pools.nodes.slots level node
  ({ pools with nodes := { pools.nodes with slots := slots } }, level)

def destroyNode (pools : Pools) (node : Nat) : Pools :=
  match pools.nodes.slots node with
  | none => pools
  | some cell =>
    { pools with
      orders := (pools.orders.release cell.value).1
      nodes := (pools.nodes.release node).1 }

/-- `node->order`. -/
def orderAt (pools : Pools) (node : Nat) : Option Order :=
  (pools.nodes.slots node).bind (fun cell => pools.orders.slots cell.value)

/-- `node->order->quantity = quantity`. -/
def setQuantity (pools : Pools) (node : Nat) (quantity : Quantity) : Pools :=
  match pools.nodes.slots node with
  | none => pools
  | some cell =>
    { pools with
      orders := pools.orders.write cell.value (fun order => { order with quantity := quantity }) }

/-- The orders met by following a level's nodes from its head. -/
def levelOrders (pools : Pools) (level : Level) : List Order :=
  (LinkedQueue.walk pools.nodes.slots pools.nodes.capacity level.head).filterMap
    (fun cell => pools.orders.slots cell.2)

end Pools

def eraseLevelIfEmpty {lt : Price → Price → Prop} (levels : OrderedMap Price Level lt)
    (price : Price) (level : Level) : OrderedMap Price Level lt :=
  if level.size = 0 then levels.erase price else levels

/-- `erase_from`, on the side the locator names. -/
def eraseRestingOrder (store : IntrusiveStore) (loc : Locator) : IntrusiveStore :=
  let level := ((store.levels loc.side).find? loc.price).getD .empty
  let (pools, level) := store.pools.unlinkNode level loc.node
  { store.setLevels loc.side
      (eraseLevelIfEmpty ((store.levels loc.side).insert loc.price level) loc.price level) with
    pools := pools.destroyNode loc.node }

def eraseIndexedOrder (store : IntrusiveStore) (id : OrderId) (loc : Locator) : IntrusiveStore :=
  eraseRestingOrder
    { store with pools := { store.pools with index := store.pools.index.erase id } } loc

/-- Queue a node; if its id turns out to be listed already, undo that. -/
def appendResting (store : IntrusiveStore) (id : OrderId) (side : Side) (price : Price)
    (node : Nat) : IntrusiveStore × Bool :=
  let level := ((store.levels side).find? price).getD .empty
  let (pools, level) := store.pools.appendNode level node
  if pools.index.contains id then
    let (pools, level) := pools.unlinkNode level node
    ({ store.setLevels side
        (eraseLevelIfEmpty ((store.levels side).insert price level) price level) with
      pools := pools.destroyNode node }, false)
  else
    ({ store.setLevels side ((store.levels side).insert price level) with
      pools := { pools with index := pools.index.insert id ⟨side, price, node⟩ } }, true)

def rest (store : IntrusiveStore) (id : OrderId) (side : Side) (price : Price)
    (quantity : Quantity) : IntrusiveStore × Bool :=
  match store.pools.orders.tryAcquire ⟨id, side, price, quantity⟩ with
  | (_, none) => (store, false)
  | (orders, some slot) =>
    match store.pools.nodes.tryAcquire ⟨slot, none, none⟩ with
    | (_, none) =>
      ({ store with pools := { store.pools with orders := (orders.release slot).1 } }, false)
    | (nodes, some node) =>
      appendResting { store with pools := { store.pools with orders := orders, nodes := nodes } }
        id side price node

/-- Loop state of `fill_level`. -/
structure LevelFill where
  level : Level
  pools : Pools
  ctx : MatchContext

def fillFrontOrder (levelPrice : Price) (fill : LevelFill) : LevelFill :=
  match fill.level.head with
  | none => fill
  | some node =>
    match fill.pools.orderAt node with
    | none => fill
    | some maker =>
      let (ctx, quantity, exhausted) := fillMaker fill.ctx maker.id maker.quantity levelPrice
      let pools := fill.pools.setQuantity node quantity
      if exhausted then
        let pools := { pools with index := pools.index.erase maker.id }
        let (pools, level) := pools.unlinkNode fill.level node
        ⟨level, pools.destroyNode node, ctx⟩
      else ⟨fill.level, pools, ctx⟩

def fillLevelStep (levelPrice : Price) (fill : LevelFill) : Option LevelFill :=
  if fill.ctx.quantity ≠ 0 ∧ fill.level.head ≠ none then some (fillFrontOrder levelPrice fill)
  else none

def fillLevel (level : Level) (levelPrice : Price) (pools : Pools) (ctx : MatchContext) :
    Level × Pools × MatchContext :=
  let final := WhileLoop.run (fillLevelStep levelPrice) (level.size + 1) ⟨level, pools, ctx⟩
  (final.level, final.pools, final.ctx)

def matchAgainst {lt : Price → Price → Prop} [DecidableRel lt] [IsStrictTotalOrder Price lt]
    (opposite : OrderedMap Price Level lt) (pools : Pools) (ctx : MatchContext) :
    LevelWalk Level Pools lt :=
  matchOrderedLevels fillLevel (fun level => level.size == 0) ⟨opposite, pools, ctx⟩

def matchOpposite (side : Side) (store : IntrusiveStore) (ctx : MatchContext) :
    IntrusiveStore × MatchContext :=
  let opposite := side.opposite
  let walk := matchAgainst (store.levels opposite) store.pools ctx
  ({ store.setLevels opposite walk.opposite with pools := walk.store }, walk.ctx)

/-- What the two read-only walks carry: the quantity left and a count, which is
`makers_freed` of a `MatchOutcome` or the count of `fill_count`. -/
structure Tally where
  remainder : Quantity
  count : Nat
  deriving DecidableEq, Repr

def simulateNodeMatch (order : Order) (outcome : Tally) : Tally :=
  let traded := min outcome.remainder order.quantity
  ⟨outcome.remainder - traded,
    if traded = order.quantity then outcome.count + 1 else outcome.count⟩

def countNodeMatch (order : Order) (tally : Tally) : Tally :=
  ⟨tally.remainder - min tally.remainder order.quantity, tally.count + 1⟩

/-- The loop over the orders of a level, stopped once nothing is left to trade. -/
def visitLevel (nodeFn : Order → Tally → Tally) : List Order → Tally → Tally
  | [], tally => tally
  | order :: queued, tally =>
    if tally.remainder = 0 then tally else visitLevel nodeFn queued (nodeFn order tally)

/-- The loop over levels from the best one, stopped at the first that cannot match. -/
def visitLevels (nodeFn : Order → Tally → Tally) (takerIsBuy isMarket : Bool) (limit : Price)
    (pools : Pools) : List (Price × Level) → Tally → Tally
  | [], tally => tally
  | entry :: worse, tally =>
    if tally.remainder = 0 then tally
    else if !canMatchLevel takerIsBuy isMarket limit entry.1 then tally
    else visitLevels nodeFn takerIsBuy isMarket limit pools worse
      (visitLevel nodeFn (pools.levelOrders entry.2) tally)

def simulateMatch (store : IntrusiveStore) (side : Side) (limit : Price) (isMarket : Bool)
    (quantity : Quantity) : Tally :=
  visitLevels simulateNodeMatch (side == .buy) isMarket limit store.pools
    (store.levels side.opposite).entries ⟨quantity, 0⟩

/-- Any fully consumed maker frees the slots the remainder needs. -/
def canStoreLimit (store : IntrusiveStore) (side : Side) (price : Price) (quantity : Quantity)
    (tif : TimeInForce) : Bool :=
  if tif = .ioc then true
  else if store.hasCapacity then true
  else
    let outcome := store.simulateMatch side price false quantity
    outcome.remainder == 0 || outcome.count > 0

def addLimit (store : IntrusiveStore) (input : LimitInput) : IntrusiveStore × List Trade :=
  if !store.canStoreLimit input.side input.price input.quantity input.tif then (store, [])
  else
    let (matched, result) := matchIncoming store input.id input.side input.price false
      input.quantity (fun store => store.contains input.id) matchOpposite
    if shouldRestLimit result input.tif then
      ((matched.rest input.id input.side input.price result.remainder).1, result.trades)
    else (matched, result.trades)

def addMarket (store : IntrusiveStore) (id : OrderId) (side : Side) (quantity : Quantity) :
    IntrusiveStore × List Trade :=
  let (matched, result) := matchIncoming store id side 0 true quantity
    (fun store => store.contains id) matchOpposite
  (matched, result.trades)

def cancel (store : IntrusiveStore) (id : OrderId) : IntrusiveStore × Bool :=
  match store.pools.index.find? id with
  | none => (store, false)
  | some loc => (store.eraseIndexedOrder id loc, true)

/-- Whether a modify keeps the order's place: same price, no larger quantity. -/
def inPlace (store : IntrusiveStore) (loc : Locator) (newPrice : Price) (newQuantity : Quantity) :
    Prop :=
  newPrice = loc.price ∧
    newQuantity ≤ ((store.pools.orderAt loc.node).map Order.quantity).getD 0

instance (store : IntrusiveStore) (loc : Locator) (newPrice : Price) (newQuantity : Quantity) :
    Decidable (store.inPlace loc newPrice newQuantity) :=
  inferInstanceAs (Decidable (_ ∧ _))

def modify (store : IntrusiveStore) (id : OrderId) (newPrice : Price) (newQuantity : Quantity) :
    IntrusiveStore × List Trade :=
  match store.pools.index.find? id with
  | none => (store, [])
  | some loc =>
    if newQuantity = 0 then (store.eraseIndexedOrder id loc, [])
    else if store.inPlace loc newPrice newQuantity then
      ({ store with pools := store.pools.setQuantity loc.node newQuantity }, [])
    else (store.eraseIndexedOrder id loc).addLimit ⟨id, loc.side, newPrice, newQuantity, .gtc⟩

def bestPrice {lt : Price → Price → Prop} (levels : OrderedMap Price Level lt) : Option Price :=
  levels.first?.map Prod.fst

def bestBid (store : IntrusiveStore) : Option Price := bestPrice store.bids

def bestAsk (store : IntrusiveStore) : Option Price := bestPrice store.asks

def Pools.levelTotal (pools : Pools) (level : Level) : QuantityTotal :=
  (pools.levelOrders level).foldl (fun total order => total + order.quantity.toUInt64) 0

def quantityAt (store : IntrusiveStore) (side : Side) (price : Price) : QuantityTotal :=
  match (store.levels side).find? price with
  | none => 0
  | some level => store.pools.levelTotal level

def orderCount (store : IntrusiveStore) : Nat := store.pools.index.size

def fillCount (store : IntrusiveStore) (takerSide : Side) (limit : Price) (isMarket : Bool)
    (quantity : Quantity) : Nat :=
  (visitLevels countNodeMatch (takerSide == .buy) isMarket limit store.pools
    (store.levels takerSide.opposite).entries ⟨quantity, 0⟩).count

def collectLevels {lt : Price → Price → Prop} (pools : Pools) (book : OrderedMap Price Level lt) :
    List LevelView :=
  book.entries.map (fun entry => ⟨entry.1, pools.levelTotal entry.2⟩)

def bidLevels (store : IntrusiveStore) : List LevelView := collectLevels store.pools store.bids

def askLevels (store : IntrusiveStore) : List LevelView := collectLevels store.pools store.asks

def appendOrders {lt : Price → Price → Prop} (pools : Pools) (book : OrderedMap Price Level lt) :
    List Order :=
  book.entries.flatMap (fun entry => pools.levelOrders entry.2)

def restingOrders (store : IntrusiveStore) : List Order :=
  appendOrders store.pools store.bids ++ appendOrders store.pools store.asks

end IntrusiveStore

end Qsl
