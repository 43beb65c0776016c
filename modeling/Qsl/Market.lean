import Qsl.MatchingEngine

namespace Qsl

open OrderedMap

/-- The event that opens the events of a call. -/
def BookOp.opening (op : BookOp) (symbol : SymbolId) (seq : SeqNo) : EngineEvent :=
  match op with
  | .addLimit id .. => .orderAccepted seq symbol id
  | .addMarket id .. => .orderAccepted seq symbol id
  | .cancel id => .orderCanceled seq symbol id
  | .modify id .. => .orderModified seq symbol id

def BookReply.trades : BookReply → List Trade
  | .traded trades => trades
  | .cancelled _ => []

/-- A new order needs an unused id, the other calls one that rests. -/
def Book.admits (book : Book) : BookOp → Bool
  | .addLimit id .. => !book.contains id
  | .addMarket id .. => !book.contains id
  | .cancel id => book.contains id
  | .modify id .. => book.contains id

/-- Whether the storage has room for what a call would leave in the book. -/
def OrderBook.stores (book : OrderBook) : BookOp → Bool
  | .addLimit _ side price quantity tif => book.canStoreLimit side price quantity tif
  | .modify id newPrice newQuantity => book.canApplyModify id newPrice newQuantity
  | _ => true

/-- The engine as what it is for: one priority book per registered symbol and a count of
the events so far. -/
@[ext] structure Market where
  registry : SymbolRegistry
  books : OrderedMap SymbolId Book (· < ·)
  seq : SeqNo

namespace Market

def empty : Market := ⟨.empty, .empty, 0⟩

def registerSymbol (market : Market) (name : SymbolName) : Market :=
  let (registry, id) := market.registry.intern name
  { market with
    registry := registry
    books := if market.books.contains id then market.books else market.books.insert id .empty }

/-- A call on one symbol's book, with the events it emits. -/
def call (market : Market) (symbol : SymbolId) (op : BookOp) : Market × List EngineEvent :=
  match market.books.find? symbol with
  | none => (market, [])
  | some book =>
    if book.admits op then
      let (after, reply) := book.apply op
      let seq := market.seq + 1
      ({ market with
          books := market.books.insert symbol after
          seq := seq + reply.trades.length },
        op.opening symbol seq :: tradeEvents symbol seq reply.trades)
    else (market, [])

def snapshot (market : Market) : EngineSnapshot :=
  ⟨market.seq, market.books.entries.map (fun entry =>
    ⟨entry.1, entry.2.bestPrice .buy, entry.2.bestPrice .sell, entry.2.restingOrders.length,
      entry.2.levelViews .buy, entry.2.levelViews .sell⟩)⟩

def restingOrders (market : Market) (symbol : SymbolId) : List Order :=
  ((market.books.find? symbol).map Book.restingOrders).getD []

section Call

variable {market : Market} {symbol : SymbolId} {op : BookOp}

theorem call_unknown (unknown : market.books.find? symbol = none) :
    market.call symbol op = (market, []) := by
  rw [call, unknown]

theorem call_turned {book : Book} (known : market.books.find? symbol = some book)
    (turned : book.admits op = false) : market.call symbol op = (market, []) := by
  rw [call, known]
  simp [turned]

end Call

end Market

namespace MatchingEngine

def view (engine : MatchingEngine) : Market :=
  ⟨engine.registry, engine.books.mapValues OrderBook.view, engine.seq⟩

def Valid (engine : MatchingEngine) : Prop :=
  ∀ symbol book, engine.findBook symbol = some book → book.Valid

theorem valid_new (storage : Storage) : (new storage).Valid := by
  intro symbol book found
  cases found

section Register

variable {engine : MatchingEngine}

theorem view_find? (engine : MatchingEngine) (symbol : SymbolId) :
    engine.view.books.find? symbol = (engine.findBook symbol).map OrderBook.view :=
  find?_mapValues _ _ _

theorem view_contains (engine : MatchingEngine) (symbol : SymbolId) :
    engine.view.books.contains symbol = engine.books.contains symbol := by
  rw [OrderedMap.contains, view_find?, Option.isSome_map]
  rfl

/-- A registration adds at most a fresh book. -/
theorem registerSymbol_findBook (engine : MatchingEngine) (name : SymbolName) (symbol : SymbolId) :
    (engine.registerSymbol name).1.findBook symbol = engine.findBook symbol ∨
      engine.findBook symbol = none ∧
        (engine.registerSymbol name).1.findBook symbol = some (.new engine.bookStorage) :=
  engine.books.find?_insert_missing _ symbol _

theorem Valid.registerSymbol (valid : engine.Valid) (name : SymbolName) :
    (engine.registerSymbol name).1.Valid ∧
      (engine.registerSymbol name).1.view = engine.view.registerSymbol name := by
  constructor
  · intro symbol book found
    rcases engine.registerSymbol_findBook name symbol with same | ⟨_, fresh⟩
    · exact valid symbol book (same.symm.trans found)
    · cases fresh.symm.trans found
      exact OrderBook.valid_new _
  · apply Market.ext
    · rfl
    · show OrderedMap.mapValues _ (if engine.books.contains (engine.registry.intern name).2 then _
        else _) = if engine.view.books.contains (engine.registry.intern name).2 then _ else _
      rw [view_contains]
      split
      · rfl
      · rw [mapValues_insert, OrderBook.view_new]
        rfl
    · rfl

end Register

section Calls

variable {engine : MatchingEngine} {symbol : SymbolId} {book : OrderBook}

theorem Valid.write (valid : engine.Valid) {after : OrderBook} (kept : after.Valid) (seq : SeqNo) :
    Valid { engine with books := engine.books.insert symbol after, seq := seq } := by
  intro other stored located
  rw [findBook, find?_insert] at located
  split at located
  · cases located
    exact kept
  · exact valid other stored located

theorem view_write (engine : MatchingEngine) (symbol : SymbolId) (after : OrderBook) (seq : SeqNo) :
    view { engine with books := engine.books.insert symbol after, seq := seq } =
      { engine.view with books := engine.view.books.insert symbol after.view, seq := seq } := by
  simp only [view, mapValues_insert]

section

variable (valid : engine.Valid)

include valid

/-- An admitted call whose book agrees with the priority book agrees with the market. -/
theorem Valid.commit (found : engine.findBook symbol = some book) (op : BookOp)
    (admitted : book.view.admits op = true) {after : OrderBook} {trades : List Trade}
    (kept : after.Valid) (left : after.view = (book.view.apply op).1)
    (answer : trades = (book.view.apply op).2.trades) :
    Agrees Valid view (engine.commit symbol after (op.opening symbol) trades)
      (engine.view.call symbol op) := by
  have known := engine.view_find? symbol
  rw [found, Option.map_some] at known
  rw [Market.call, known]
  simp only [admitted, if_true]
  refine ⟨valid.write kept _, ?_, ?_⟩
  · rw [MatchingEngine.commit, view_write, left, answer]
    rfl
  · rw [MatchingEngine.commit, answer]
    rfl

theorem Valid.idle {op : BookOp} (idle : engine.view.call symbol op = (engine.view, [])) :
    Agrees Valid view (engine, []) (engine.view.call symbol op) := by
  rw [idle]
  exact ⟨valid, rfl, rfl⟩

theorem Valid.unknown (unknown : engine.findBook symbol = none) (op : BookOp) :
    Agrees Valid view (engine, []) (engine.view.call symbol op) := by
  apply valid.idle
  apply Market.call_unknown
  rw [view_find?, unknown]
  rfl

theorem Valid.turned (found : engine.findBook symbol = some book) {op : BookOp}
    (turned : book.view.admits op = false) :
    Agrees Valid view (engine, []) (engine.view.call symbol op) := by
  apply valid.idle
  apply Market.call_turned _ turned
  rw [view_find?, found]
  rfl

/-- A new limit order that the symbol's storage has room for is that of the market. -/
theorem Valid.newLimit (symbol : SymbolId) (id : OrderId) {side : Side} {price : Price}
    {quantity : Quantity} {tif : TimeInForce}
    (storable : ∀ book, engine.findBook symbol = some book →
      book.canStoreLimit side price quantity tif = true) :
    Agrees Valid view (engine.newLimit symbol id side price quantity tif)
      (engine.view.call symbol (.addLimit id side price quantity tif)) := by
  rw [MatchingEngine.newLimit]
  cases found : engine.findBook symbol with
  | none => exact valid.unknown found _
  | some book =>
    have good := valid symbol book found
    have agrees := good.addLimit id (storable book found)
    simp only [good.contains_eq, storable book found, Bool.not_true, Bool.false_eq_true, if_false]
    cases known : book.view.contains id with
    | true => exact valid.turned found (by rw [Book.admits, known, Bool.not_true])
    | false =>
      exact valid.commit found (.addLimit id side price quantity tif)
        (by rw [Book.admits, known, Bool.not_false]) agrees.valid agrees.view agrees.answer

theorem Valid.newMarket (symbol : SymbolId) (id : OrderId) (side : Side) (quantity : Quantity) :
    Agrees Valid view (engine.newMarket symbol id side quantity)
      (engine.view.call symbol (.addMarket id side quantity)) := by
  rw [MatchingEngine.newMarket]
  cases found : engine.findBook symbol with
  | none => exact valid.unknown found _
  | some book =>
    have good := valid symbol book found
    have agrees := good.addMarket id side quantity
    simp only [good.contains_eq]
    cases known : book.view.contains id with
    | true => exact valid.turned found (by rw [Book.admits, known, Bool.not_true])
    | false =>
      exact valid.commit found (.addMarket id side quantity)
        (by rw [Book.admits, known, Bool.not_false]) agrees.valid agrees.view agrees.answer

theorem Valid.cancel (symbol : SymbolId) (id : OrderId) :
    Agrees Valid view (engine.cancel symbol id) (engine.view.call symbol (.cancel id)) := by
  rw [MatchingEngine.cancel]
  cases found : engine.findBook symbol with
  | none => exact valid.unknown found _
  | some book =>
    have good := valid symbol book found
    obtain ⟨kept, left, answer⟩ := good.cancel id
    have booked := engine.view_find? symbol
    rw [found, Option.map_some] at booked
    simp only [answer]
    cases known : book.view.contains id with
    | true =>
      have hit : (book.view.cancel id).2 = true := by
        rw [Book.cancel, known]
        rfl
      rw [if_pos hit]
      exact valid.commit found (.cancel id) (by rw [Book.admits, known]) kept left rfl
    | false =>
      -- the book is written back as it was
      rw [Book.cancel, known] at left ⊢
      rw [Market.call_turned booked (by rw [Book.admits, known])]
      refine ⟨valid.write kept engine.seq, ?_, rfl⟩
      have written := engine.view_write symbol (book.cancel id).1 engine.seq
      rw [left] at written
      refine written.trans ?_
      rw [if_neg Bool.false_ne_true, insert_self _ booked]
      rfl

/-- A modify that the symbol's storage can apply is that of the market. -/
theorem Valid.modify (symbol : SymbolId) {id : OrderId} {newPrice : Price}
    {newQuantity : Quantity} (applicable : ∀ book, engine.findBook symbol = some book →
      book.canApplyModify id newPrice newQuantity = true) :
    Agrees Valid view (engine.modify symbol id newPrice newQuantity)
      (engine.view.call symbol (.modify id newPrice newQuantity)) := by
  rw [MatchingEngine.modify]
  cases found : engine.findBook symbol with
  | none => exact valid.unknown found _
  | some book =>
    have good := valid symbol book found
    have agrees := good.modify (applicable book found)
    simp only [good.contains_eq, applicable book found, Bool.not_true, Bool.false_eq_true,
      if_false]
    cases known : book.view.contains id with
    | false => exact valid.turned found (by rw [Book.admits, known])
    | true =>
      exact valid.commit found (.modify id newPrice newQuantity) (by rw [Book.admits, known])
        agrees.valid agrees.view agrees.answer

end

/-- The mutator for a call. -/
def call (engine : MatchingEngine) (symbol : SymbolId) : BookOp → MatchingEngine × List EngineEvent
  | .addLimit id side price quantity tif => engine.newLimit symbol id side price quantity tif
  | .addMarket id side quantity => engine.newMarket symbol id side quantity
  | .cancel id => engine.cancel symbol id
  | .modify id newPrice newQuantity => engine.modify symbol id newPrice newQuantity

/-- A call that the symbol's storage does not turn down is that of the market. -/
theorem Valid.call (valid : engine.Valid) {symbol : SymbolId} {op : BookOp}
    (stored : ∀ book, engine.findBook symbol = some book → book.stores op = true) :
    Agrees Valid view (engine.call symbol op) (engine.view.call symbol op) := by
  cases op with
  | addLimit id side price quantity tif => exact valid.newLimit symbol id stored
  | addMarket id side quantity => exact valid.newMarket symbol id side quantity
  | cancel id => exact valid.cancel symbol id
  | modify id newPrice newQuantity => exact valid.modify symbol stored

end Calls

section Observe

variable {engine : MatchingEngine} (valid : engine.Valid)

include valid

/-- The snapshot is that of the market, whatever the storage. -/
theorem Valid.snapshot_eq : engine.snapshot = engine.view.snapshot := by
  rw [MatchingEngine.snapshot, Market.snapshot]
  show EngineSnapshot.mk _ _ = EngineSnapshot.mk engine.seq
    ((engine.books.entries.map (fun entry => (entry.1, entry.2.view))).map _)
  rw [List.map_map]
  congr 1
  apply List.map_congr_left
  intro entry member
  have observed := (valid entry.1 entry.2 (OrderedMap.find?_eq_some.mpr member)).observe_eq
  simp only [OrderBook.bestBid, OrderBook.bestAsk, OrderBook.orderCount, OrderBook.bidLevels,
    OrderBook.askLevels, observed]
  rfl

theorem Valid.restingOrders_eq (symbol : SymbolId) :
    engine.restingOrders symbol = engine.view.restingOrders symbol := by
  rw [MatchingEngine.restingOrders, Market.restingOrders, view_find?]
  cases found : engine.findBook symbol with
  | none => rfl
  | some book =>
    show book.observe.restingOrders = book.view.restingOrders
    rw [(valid symbol book found).observe_eq]
    rfl

end Observe

end MatchingEngine

end Qsl
