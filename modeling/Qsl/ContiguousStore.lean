import Qsl.Bitmap
import Qsl.Matching

/- `ContiguousStore`: levels in a flat array indexed by price tick, occupancy
bitmaps for the best price, and a vector with tombstones as each level's queue.
The source keeps `head`, `alive` and a locator's `pos` in 32 bits. They are natural numbers
here, which is exact while no level's vector reaches 2^32 entries; `ContiguousWrap` runs the
store with the 32-bit counters, shows the two equal up to there and what differs from there on. -/
namespace Qsl

/-- Quantity 0 marks a tombstone. -/
structure FlatOrder where
  id : OrderId
  quantity : Quantity
  deriving DecidableEq, Repr

/-- `head` is the index of the first live order while `alive > 0`. -/
structure FlatLevel where
  orders : List FlatOrder
  head : Nat
  alive : Nat
  deriving DecidableEq, Repr

/-- `orders[pos].quantity = quantity`. -/
def FlatLevel.setQuantity (level : FlatLevel) (pos : Nat) (quantity : Quantity) :
    FlatLevel :=
  { level with
    orders := level.orders.modify pos (fun order => { order with quantity := quantity }) }

structure ContiguousStore.Locator where
  side : Side
  price : Price
  pos : Nat
  deriving DecidableEq, Repr

/-- The level vector is addressed by slots below `bandWidth`. -/
structure BookSide where
  levels : Nat → FlatLevel
  bits : Bitmap.Words

/-- `levels[slot] = level`. -/
def BookSide.setLevel (bookSide : BookSide) (slot : Nat) (level : FlatLevel) : BookSide :=
  { bookSide with levels := fun other => if other = slot then level else bookSide.levels other }

structure ContiguousStore where
  bids : BookSide
  asks : BookSide
  index : OrderedMap OrderId ContiguousStore.Locator (· < ·)

namespace ContiguousStore

abbrev Index := OrderedMap OrderId Locator (· < ·)

def minPrice : Price := 1

def maxPrice : Price := 1024

def bandWidth : Nat := 1024

def bitmapWords : Nat := 16

def compactMinSize : Nat := 16

def emptySide : BookSide := ⟨fun _ => ⟨[], 0, 0⟩, fun _ => 0#64⟩

def empty : ContiguousStore := ⟨emptySide, emptySide, .empty⟩

def inBand (price : Price) : Bool := minPrice ≤ price ∧ price ≤ maxPrice

def slotOf (price : Price) : Nat := (price - minPrice).toUInt64.toNat

def priceOf (slot : Nat) : Price := minPrice + Int64.ofNat slot

def sideRef (store : ContiguousStore) : Side → BookSide
  | .buy => store.bids
  | .sell => store.asks

def setSideRef (store : ContiguousStore) (side : Side) (bookSide : BookSide) : ContiguousStore :=
  match side with
  | .buy => { store with bids := bookSide }
  | .sell => { store with asks := bookSide }

def bestSlot (side : BookSide) (isBid : Bool) : Option Nat :=
  if isBid then Bitmap.nextDown side.bits (bandWidth - 1)
  else Bitmap.nextUp bitmapWords side.bits 0

/-- The next occupied slot strictly worse than `slot`. -/
def nextWorse (bits : Bitmap.Words) (isBid : Bool) (slot : Nat) : Option Nat :=
  if isBid then if slot = 0 then none else Bitmap.nextDown bits (slot - 1)
  else if slot + 1 ≥ bandWidth then none else Bitmap.nextUp bitmapWords bits (slot + 1)

/-- One iteration of `for_each_occupied`; the visitor's captured variables are
`σ`, and leaving the loop early drops the slot. -/
def forEachOccupiedStep {σ : Type} (side : BookSide) (isBid : Bool)
    (fn : Nat → FlatLevel → σ → σ × Bool) (state : Option Nat × σ) : Option (Option Nat × σ) :=
  match state with
  | (none, _) => none
  | (some slot, captured) =>
    let (captured', more) := fn slot (side.levels slot) captured
    some (if more then nextWorse side.bits isBid slot else none, captured')

def forEachOccupied {σ : Type} (side : BookSide) (isBid : Bool)
    (fn : Nat → FlatLevel → σ → σ × Bool) (captured : σ) : σ :=
  (WhileLoop.run (forEachOccupiedStep side isBid fn) (bandWidth + 1)
    (bestSlot side isBid, captured)).2

/-- Step over the tombstones from `head` on. -/
def advanceHead (level : FlatLevel) : FlatLevel :=
  { level with
    head := level.head +
      ((level.orders.drop level.head).takeWhile (fun order => order.quantity = 0)).length }

def clearLevel (side : BookSide) (slot : Nat) : BookSide :=
  { side.setLevel slot ⟨[], 0, 0⟩ with bits := Bitmap.clear side.bits slot }

/-- One iteration of `compact_level`: keep a live order and refresh its position. -/
def compactStep (state : Index × List FlatOrder) (order : FlatOrder) : Index × List FlatOrder :=
  if order.quantity = 0 then state
  else
    let index := match state.1.find? order.id with
      | none => state.1
      | some loc => state.1.insert order.id { loc with pos := state.2.length }
    (index, state.2 ++ [order])

def compactLevel (index : Index) (level : FlatLevel) : FlatLevel × Index :=
  let (index', live) := (level.orders.drop level.head).foldl compactStep (index, [])
  ({ level with orders := live, head := 0 }, index')

def maybeCompact (index : Index) (level : FlatLevel) : FlatLevel × Index :=
  let dead := level.orders.length - level.alive
  if level.orders.length ≥ compactMinSize ∧ dead > level.alive then compactLevel index level
  else (level, index)

def contains (store : ContiguousStore) (id : OrderId) : Bool := store.index.contains id

def rest (store : ContiguousStore) (id : OrderId) (side : Side) (price : Price)
    (quantity : Quantity) : ContiguousStore × Bool :=
  if !inBand price then (store, false)
  else
    let bookSide := store.sideRef side
    let slot := slotOf price
    let level := bookSide.levels slot
    let bits := if level.alive = 0 then Bitmap.set bookSide.bits slot else bookSide.bits
    let level' : FlatLevel :=
      { level with orders := level.orders ++ [⟨id, quantity⟩], alive := level.alive + 1 }
    ({ store.setSideRef side { bookSide.setLevel slot level' with bits := bits } with
        index := store.index.insert id ⟨side, price, level.orders.length⟩ }, true)

/-- Loop state of `fill_level`. -/
structure LevelFill where
  level : FlatLevel
  index : Index
  ctx : MatchContext

def fillFrontOrder (levelPrice : Price) (fill : LevelFill) : LevelFill :=
  match fill.level.orders[fill.level.head]? with
  | none => fill
  | some maker =>
    let (ctx, quantity, exhausted) := fillMaker fill.ctx maker.id maker.quantity levelPrice
    let level := { fill.level with
      orders := fill.level.orders.set fill.level.head ⟨maker.id, quantity⟩ }
    if exhausted then
      ⟨advanceHead { level with alive := level.alive - 1 }, fill.index.erase maker.id, ctx⟩
    else ⟨level, fill.index, ctx⟩

def fillLevelStep (levelPrice : Price) (fill : LevelFill) : Option LevelFill :=
  if fill.ctx.quantity ≠ 0 ∧ fill.level.alive > 0 then some (fillFrontOrder levelPrice fill)
  else none

def fillLevel (level : FlatLevel) (levelPrice : Price) (index : Index) (ctx : MatchContext) :
    LevelFill :=
  WhileLoop.run (fillLevelStep levelPrice) (level.orders.length + 1) ⟨level, index, ctx⟩

/-- Loop state of `match_against`. -/
structure Walk where
  opposite : BookSide
  index : Index
  ctx : MatchContext

def matchAgainstStep (oppositeIsBid : Bool) (walk : Walk) : Option Walk :=
  if walk.ctx.quantity = 0 then none
  else
    match bestSlot walk.opposite oppositeIsBid with
    | none => none
    | some slot =>
      let levelPrice := priceOf slot
      if !canMatchLevel walk.ctx.takerIsBuy walk.ctx.isMarket walk.ctx.limit levelPrice then none
      else
        let fill := fillLevel (walk.opposite.levels slot) levelPrice walk.index walk.ctx
        if fill.level.alive = 0 then
          some ⟨clearLevel (walk.opposite.setLevel slot fill.level) slot, fill.index, fill.ctx⟩
        else
          let (level, index) := maybeCompact fill.index fill.level
          some ⟨walk.opposite.setLevel slot level, index, fill.ctx⟩

def matchAgainst (oppositeIsBid : Bool) (walk : Walk) : Walk :=
  WhileLoop.run (matchAgainstStep oppositeIsBid) (bandWidth + 1) walk

def matchOpposite (side : Side) (store : ContiguousStore) (ctx : MatchContext) :
    ContiguousStore × MatchContext :=
  let takerIsBuy := side == .buy
  let walk := matchAgainst (!takerIsBuy) ⟨store.sideRef side.opposite, store.index, ctx⟩
  ({ store.setSideRef side.opposite walk.opposite with index := walk.index }, walk.ctx)

/-- Take quantity off along a level's queue; tombstones take nothing. -/
def simulateLevel : List FlatOrder → Quantity → Quantity
  | [], quantity => quantity
  | order :: queued, quantity =>
    if quantity = 0 then quantity
    else simulateLevel queued (quantity - min quantity order.quantity)

/-- The visitor of `simulate_remainder`; it captures the quantity. -/
def simulateVisit (takerIsBuy : Bool) (limit : Price) (slot : Nat) (level : FlatLevel)
    (quantity : Quantity) : Quantity × Bool :=
  if quantity = 0 ∨ canMatchLevel takerIsBuy false limit (priceOf slot) = false then
    (quantity, false)
  else
    let left := simulateLevel (level.orders.drop level.head) quantity
    (left, left ≠ 0)

/-- The remainder a limit order would leave after crossing the opposite side. -/
def simulateRemainder (store : ContiguousStore) (side : Side) (limit : Price)
    (quantity : Quantity) : Quantity :=
  let takerIsBuy := side == .buy
  forEachOccupied (store.sideRef side.opposite) (!takerIsBuy) (simulateVisit takerIsBuy limit)
    quantity

def canStoreLimit (store : ContiguousStore) (side : Side) (price : Price) (quantity : Quantity)
    (tif : TimeInForce) : Bool :=
  if tif = .ioc ∨ inBand price then true
  else store.simulateRemainder side price quantity = 0

def addLimit (store : ContiguousStore) (input : LimitInput) : ContiguousStore × List Trade :=
  if !store.canStoreLimit input.side input.price input.quantity input.tif then (store, [])
  else
    let (matched, result) := matchIncoming store input.id input.side input.price false
      input.quantity (fun store => store.contains input.id) matchOpposite
    if shouldRestLimit result input.tif then
      ((matched.rest input.id input.side input.price result.remainder).1, result.trades)
    else (matched, result.trades)

def addMarket (store : ContiguousStore) (id : OrderId) (side : Side) (quantity : Quantity) :
    ContiguousStore × List Trade :=
  let (matched, result) := matchIncoming store id side 0 true quantity
    (fun store => store.contains id) matchOpposite
  (matched, result.trades)

def removeResting (store : ContiguousStore) (loc : Locator) : ContiguousStore :=
  let bookSide := store.sideRef loc.side
  let slot := slotOf loc.price
  let marked := (bookSide.levels slot).setQuantity loc.pos 0
  let level := { marked with alive := marked.alive - 1 }
  if level.alive = 0 then store.setSideRef loc.side (clearLevel (bookSide.setLevel slot level) slot)
  else
    let level := if loc.pos = level.head then advanceHead level else level
    let (level, index) := maybeCompact store.index level
    { store.setSideRef loc.side (bookSide.setLevel slot level) with index := index }

def cancel (store : ContiguousStore) (id : OrderId) : ContiguousStore × Bool :=
  match store.index.find? id with
  | none => (store, false)
  | some loc => (removeResting { store with index := store.index.erase id } loc, true)

def orderAt (store : ContiguousStore) (loc : Locator) : Option FlatOrder :=
  ((store.sideRef loc.side).levels (slotOf loc.price)).orders[loc.pos]?

def reducesInPlace (store : ContiguousStore) (loc : Locator) (newPrice : Price)
    (newQuantity : Quantity) : Bool :=
  newPrice = loc.price ∧ newQuantity ≤ ((store.orderAt loc).map FlatOrder.quantity).getD 0

def canApplyModify (store : ContiguousStore) (id : OrderId) (newPrice : Price)
    (newQuantity : Quantity) : Bool :=
  match store.index.find? id with
  | none => true
  | some loc =>
    if newQuantity = 0 then true
    else if store.reducesInPlace loc newPrice newQuantity then true
    else if inBand newPrice then true
    else store.simulateRemainder loc.side newPrice newQuantity = 0

def modify (store : ContiguousStore) (id : OrderId) (newPrice : Price) (newQuantity : Quantity) :
    ContiguousStore × List Trade :=
  match store.index.find? id with
  | none => (store, [])
  | some loc =>
    if !store.canApplyModify id newPrice newQuantity then (store, [])
    else if newQuantity = 0 then ((store.cancel id).1, [])
    else if store.reducesInPlace loc newPrice newQuantity then
      let bookSide := store.sideRef loc.side
      let level := (bookSide.levels (slotOf loc.price)).setQuantity loc.pos newQuantity
      (store.setSideRef loc.side (bookSide.setLevel (slotOf loc.price) level), [])
    else (store.cancel id).1.addLimit ⟨id, loc.side, newPrice, newQuantity, .gtc⟩

def countFlatLevel : List FlatOrder → Quantity → Nat × Quantity
  | [], quantity => (0, quantity)
  | order :: queued, quantity =>
    if quantity = 0 then (0, quantity)
    else if order.quantity = 0 then countFlatLevel queued quantity
    else
      let (count, left) := countFlatLevel queued (quantity - min quantity order.quantity)
      (count + 1, left)

/-- The visitor of `count_flat_matches`; it captures the count and the query's quantity. -/
def countVisit (query : MatchQuery) (slot : Nat) (level : FlatLevel) (state : Nat × Quantity) :
    (Nat × Quantity) × Bool :=
  if state.2 = 0 ∨
      canMatchLevel query.takerIsBuy query.isMarket query.limit (priceOf slot) = false then
    (state, false)
  else
    let (count, left) := countFlatLevel (level.orders.drop level.head) state.2
    ((state.1 + count, left), left ≠ 0)

def countFlatMatches (opposite : BookSide) (oppositeIsBid : Bool) (query : MatchQuery) : Nat :=
  (forEachOccupied opposite oppositeIsBid (countVisit query) (0, query.quantity)).1

def fillCount (store : ContiguousStore) (takerSide : Side) (limit : Price) (isMarket : Bool)
    (quantity : Quantity) : Nat :=
  let takerIsBuy := takerSide == .buy
  countFlatMatches (store.sideRef takerSide.opposite) (!takerIsBuy)
    ⟨takerIsBuy, limit, isMarket, quantity⟩

def bestBid (store : ContiguousStore) : Option Price := (bestSlot store.bids true).map priceOf

def bestAsk (store : ContiguousStore) : Option Price := (bestSlot store.asks false).map priceOf

def levelTotal (level : FlatLevel) : QuantityTotal :=
  (level.orders.drop level.head).foldl (fun total order => total + order.quantity.toUInt64) 0

def quantityAt (store : ContiguousStore) (side : Side) (price : Price) : QuantityTotal :=
  if !inBand price then 0 else levelTotal ((store.sideRef side).levels (slotOf price))

def orderCount (store : ContiguousStore) : Nat := store.index.size

def collectLevels (side : BookSide) (isBid : Bool) : List LevelView :=
  forEachOccupied side isBid
    (fun slot level views => (views ++ [⟨priceOf slot, levelTotal level⟩], true)) []

def bidLevels (store : ContiguousStore) : List LevelView := collectLevels store.bids true

def askLevels (store : ContiguousStore) : List LevelView := collectLevels store.asks false

/-- The live orders of a queue, as `append_orders` pushes them. -/
def liveOrders (side : Side) (price : Price) (orders : List FlatOrder) : List Order :=
  (orders.filter (fun order => order.quantity ≠ 0)).map
    (fun order => ⟨order.id, side, price, order.quantity⟩)

def appendOrders (side : BookSide) (isBid : Bool) (sideValue : Side) : List Order :=
  forEachOccupied side isBid
    (fun slot level out =>
      (out ++ liveOrders sideValue (priceOf slot) (level.orders.drop level.head), true)) []

def restingOrders (store : ContiguousStore) : List Order :=
  appendOrders store.bids true .buy ++ appendOrders store.asks false .sell

end ContiguousStore

end Qsl
