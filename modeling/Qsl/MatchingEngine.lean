import Qsl.OrderBook
import Mathlib.Data.List.Lex

namespace Qsl

/-- An external symbol name, as the bytes of a `std::string`. -/
abbrev SymbolName := List UInt8

instance symbolNameStrictTotalOrder : IsStrictTotalOrder SymbolName (List.Lex (· < ·)) :=
  { isStrictWeakOrder_of_isOrderConnected with }

/-- Interns symbol names to ids in the order of registration. -/
structure SymbolRegistry where
  ids : OrderedMap SymbolName SymbolId (List.Lex (· < ·))
  next : SymbolId

namespace SymbolRegistry

def empty : SymbolRegistry := ⟨.empty, 0⟩

def intern (registry : SymbolRegistry) (name : SymbolName) : SymbolRegistry × SymbolId :=
  match registry.ids.find? name with
  | some id => (registry, id)
  | none => (⟨registry.ids.insert name registry.next, registry.next + 1⟩, registry.next)

def find (registry : SymbolRegistry) (name : SymbolName) : Option SymbolId :=
  registry.ids.find? name

end SymbolRegistry

structure SymbolSnapshot where
  symbol : SymbolId
  bestBid : Option Price
  bestAsk : Option Price
  orderCount : Nat
  bids : List LevelView
  asks : List LevelView
  deriving DecidableEq, Repr

structure EngineSnapshot where
  lastSeq : SeqNo
  symbols : List SymbolSnapshot
  deriving DecidableEq, Repr

structure MatchingEngine where
  registry : SymbolRegistry
  books : OrderedMap SymbolId OrderBook (· < ·)
  seq : SeqNo
  bookStorage : Storage

/-- One trade event per trade, numbered on from `seq`. -/
def tradeEvents (symbol : SymbolId) : SeqNo → List Trade → List EngineEvent
  | _, [] => []
  | seq, trade :: trades =>
    .tradeEvent (seq + 1) symbol trade.takerId trade.makerId trade.price trade.quantity ::
      tradeEvents symbol (seq + 1) trades

namespace MatchingEngine

def new (storage : Storage) : MatchingEngine := ⟨.empty, .empty, 0, storage⟩

/-- Intern the name and make its book if there is none. -/
def registerSymbol (engine : MatchingEngine) (name : SymbolName) : MatchingEngine × SymbolId :=
  let (registry, id) := engine.registry.intern name
  let books :=
    if engine.books.contains id then engine.books
    else engine.books.insert id (.new engine.bookStorage)
  ({ engine with registry := registry, books := books }, id)

def symbolId (engine : MatchingEngine) (name : SymbolName) : Option SymbolId :=
  engine.registry.find name

def findBook (engine : MatchingEngine) (symbol : SymbolId) : Option OrderBook :=
  engine.books.find? symbol

/-- The tail that the mutators share: the book is changed, the opening event takes the next
sequence number and each trade one more. -/
def commit (engine : MatchingEngine) (symbol : SymbolId) (book : OrderBook)
    (opening : SeqNo → EngineEvent) (trades : List Trade) : MatchingEngine × List EngineEvent :=
  let seq := engine.seq + 1
  ({ engine with books := engine.books.insert symbol book, seq := seq + trades.length },
    opening seq :: tradeEvents symbol seq trades)

def newLimit (engine : MatchingEngine) (symbol : SymbolId) (id : OrderId) (side : Side)
    (price : Price) (quantity : Quantity) (tif : TimeInForce) :
    MatchingEngine × List EngineEvent :=
  match engine.findBook symbol with
  | none => (engine, [])
  | some book =>
    if book.contains id then (engine, [])
    else if !book.canStoreLimit side price quantity tif then (engine, [])
    else
      let (after, trades) := book.addLimit id side price quantity tif
      engine.commit symbol after (.orderAccepted · symbol id) trades

def newMarket (engine : MatchingEngine) (symbol : SymbolId) (id : OrderId) (side : Side)
    (quantity : Quantity) : MatchingEngine × List EngineEvent :=
  match engine.findBook symbol with
  | none => (engine, [])
  | some book =>
    if book.contains id then (engine, [])
    else
      let (after, trades) := book.addMarket id side quantity
      engine.commit symbol after (.orderAccepted · symbol id) trades

def cancel (engine : MatchingEngine) (symbol : SymbolId) (id : OrderId) :
    MatchingEngine × List EngineEvent :=
  match engine.findBook symbol with
  | none => (engine, [])
  | some book =>
    let (after, found) := book.cancel id
    if found then engine.commit symbol after (.orderCanceled · symbol id) []
    else ({ engine with books := engine.books.insert symbol after }, [])

def modify (engine : MatchingEngine) (symbol : SymbolId) (id : OrderId) (newPrice : Price)
    (newQuantity : Quantity) : MatchingEngine × List EngineEvent :=
  match engine.findBook symbol with
  | none => (engine, [])
  | some book =>
    if !book.contains id then (engine, [])
    else if !book.canApplyModify id newPrice newQuantity then (engine, [])
    else
      let (after, trades) := book.modify id newPrice newQuantity
      engine.commit symbol after (.orderModified · symbol id) trades

def hasSymbol (engine : MatchingEngine) (symbol : SymbolId) : Bool :=
  (engine.findBook symbol).isSome

def restingOrders (engine : MatchingEngine) (symbol : SymbolId) : List Order :=
  ((engine.findBook symbol).map OrderBook.restingOrders).getD []

def contains (engine : MatchingEngine) (symbol : SymbolId) (id : OrderId) : Bool :=
  ((engine.findBook symbol).map (fun book => book.contains id)).getD false

def bestBid (engine : MatchingEngine) (symbol : SymbolId) : Option Price :=
  (engine.findBook symbol).bind OrderBook.bestBid

def bestAsk (engine : MatchingEngine) (symbol : SymbolId) : Option Price :=
  (engine.findBook symbol).bind OrderBook.bestAsk

def fillCount (engine : MatchingEngine) (symbol : SymbolId) (side : Side) (price : Price)
    (type : OrderType) (quantity : Quantity) : Nat :=
  ((engine.findBook symbol).map
    (fun book => book.fillCount side price (type == .market) quantity)).getD 0

def canStoreLimit (engine : MatchingEngine) (symbol : SymbolId) (side : Side) (price : Price)
    (quantity : Quantity) (tif : TimeInForce) : Bool :=
  ((engine.findBook symbol).map
    (fun book => book.canStoreLimit side price quantity tif)).getD false

def canApplyModify (engine : MatchingEngine) (symbol : SymbolId) (id : OrderId) (newPrice : Price)
    (newQuantity : Quantity) : Bool :=
  ((engine.findBook symbol).map
    (fun book => book.canApplyModify id newPrice newQuantity)).getD false

/-- The books in the order of their ids. -/
def snapshot (engine : MatchingEngine) : EngineSnapshot :=
  ⟨engine.seq, engine.books.entries.map (fun entry =>
    ⟨entry.1, entry.2.bestBid, entry.2.bestAsk, entry.2.orderCount, entry.2.bidLevels,
      entry.2.askLevels⟩)⟩

end MatchingEngine

end Qsl
