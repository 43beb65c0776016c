import Qsl.OrderGateway

namespace Qsl

/-- The book call behind a command. -/
def Command.target : Command → Option (SymbolId × BookOp)
  | .registerSymbol _ => none
  | .newLimit symbol id side price quantity tif =>
    some (symbol, .addLimit id side price quantity tif)
  | .newMarket symbol id side quantity => some (symbol, .addMarket id side quantity)
  | .cancel symbol id => some (symbol, .cancel id)
  | .modify symbol id price quantity => some (symbol, .modify id price quantity)

namespace Market

def apply (market : Market) : Command → Market × List EngineEvent
  | .registerSymbol name => (market.registerSymbol name, [])
  | .newLimit symbol id side price quantity tif =>
    market.call symbol (.addLimit id side price quantity tif)
  | .newMarket symbol id side quantity => market.call symbol (.addMarket id side quantity)
  | .cancel symbol id => market.call symbol (.cancel id)
  | .modify symbol id price quantity => market.call symbol (.modify id price quantity)

/-- What the gateway decides from the market alone, before it asks the storage. -/
def verdict (config : RiskConfig) (market : Market) : Command → RejectReason
  | .registerSymbol _ => .none
  | .newLimit symbol id side price quantity _ =>
    match market.books.find? symbol with
    | none => .unknownSymbol
    | some book =>
      if book.contains id then .duplicateOrderId else config.checkLimit side price quantity
  | .newMarket symbol id side quantity =>
    match market.books.find? symbol with
    | none => .unknownSymbol
    | some book =>
      if book.contains id then .duplicateOrderId else config.checkMarket side quantity
  | .cancel symbol id =>
    match market.books.find? symbol with
    | none => .unknownSymbol
    | some book => if book.contains id then .none else .unknownOrder
  | .modify symbol id price quantity =>
    match market.books.find? symbol with
    | none => .unknownSymbol
    | some book =>
      if !book.contains id then .unknownOrder
      else if quantity = 0 then .none
      else config.checkLimitValues price quantity

end Market

namespace MatchingEngine

/-- `replay::apply`: a command straight to the engine, past the gateway. -/
def apply (engine : MatchingEngine) : Command → MatchingEngine × List EngineEvent
  | .registerSymbol name => ((engine.registerSymbol name).1, [])
  | .newLimit symbol id side price quantity tif =>
    engine.newLimit symbol id side price quantity tif
  | .newMarket symbol id side quantity => engine.newMarket symbol id side quantity
  | .cancel symbol id => engine.cancel symbol id
  | .modify symbol id price quantity => engine.modify symbol id price quantity

/-- No storage turns the command down. -/
def stores (engine : MatchingEngine) (command : Command) : Bool :=
  match command.target with
  | none => true
  | some (symbol, op) => ((engine.findBook symbol).map (fun book => book.stores op)).getD true

theorem Valid.apply {engine : MatchingEngine} (valid : engine.Valid) {command : Command}
    (stored : engine.stores command = true) :
    Agrees Valid view (engine.apply command) (engine.view.apply command) := by
  have spared : ∀ symbol op, command.target = some (symbol, op) →
      ∀ book, engine.findBook symbol = some book → book.stores op = true := by
    intro symbol op target book found
    rw [stores, target] at stored
    simpa [found] using stored
  cases command with
  | registerSymbol name =>
    obtain ⟨kept, after⟩ := valid.registerSymbol name
    exact ⟨kept, after, rfl⟩
  | _ => exact valid.call (spared _ _ rfl)

end MatchingEngine

theorem OrderBook.canApplyModify_zero (book : OrderBook) (id : OrderId) (newPrice : Price) :
    book.canApplyModify id newPrice 0 = true := by
  cases book with
  | baseline store => rfl
  | intrusive store => rfl
  | contiguous store =>
    show store.canApplyModify id newPrice 0 = true
    rw [ContiguousStore.canApplyModify]
    cases store.index.find? id <;> rfl

section Found

variable {engine : MatchingEngine} {symbol : SymbolId} {book : OrderBook}

theorem MatchingEngine.hasSymbol_none (unknown : engine.findBook symbol = none) :
    engine.hasSymbol symbol = false ∧ engine.view.books.find? symbol = none := by
  rw [hasSymbol, view_find?, unknown]
  exact ⟨rfl, rfl⟩

theorem MatchingEngine.hasSymbol_some (found : engine.findBook symbol = some book) :
    engine.hasSymbol symbol = true ∧ engine.view.books.find? symbol = some book.view := by
  rw [hasSymbol, view_find?, found]
  exact ⟨rfl, rfl⟩

theorem MatchingEngine.Valid.contains_eq (valid : engine.Valid)
    (found : engine.findBook symbol = some book) (id : OrderId) :
    engine.contains symbol id = book.view.contains id := by
  rw [← (valid symbol book found).contains_eq, MatchingEngine.contains, found]
  rfl

theorem MatchingEngine.canStoreLimit_eq (found : engine.findBook symbol = some book) (id : OrderId)
    (side : Side) (price : Price) (quantity : Quantity) (tif : TimeInForce) :
    engine.canStoreLimit symbol side price quantity tif =
      engine.stores (.newLimit symbol id side price quantity tif) := by
  rw [canStoreLimit, stores, Command.target]
  simp [found, OrderBook.stores]

theorem MatchingEngine.canApplyModify_eq (found : engine.findBook symbol = some book)
    (id : OrderId) (price : Price) (quantity : Quantity) :
    engine.canApplyModify symbol id price quantity =
      engine.stores (.modify symbol id price quantity) := by
  rw [canApplyModify, stores, Command.target]
  simp [found, OrderBook.stores]

end Found

/-- The gateway in one equation: the verdict rejects a command, or the storage does, or the
engine applies it. -/
def dispatch (config : RiskConfig) (engine : MatchingEngine) (command : Command) :
    MatchingEngine × GatewayResult :=
  let reason := engine.view.verdict config command
  if reason ≠ .none then (engine, .reject reason)
  else if !engine.stores command then (engine, .reject .storageExhausted)
  else ((engine.apply command).1, .accept (engine.apply command).2)

section Dispatch

variable {engine : MatchingEngine} (config : RiskConfig) (valid : engine.Valid)

include valid

section

variable (symbol : SymbolId) (id : OrderId)

include symbol id

theorem newLimit_dispatch (side : Side) (price : Price) (quantity : Quantity) (tif : TimeInForce) :
    OrderGateway.newLimit config engine symbol id side price quantity tif =
      dispatch config engine (.newLimit symbol id side price quantity tif) := by
  rw [OrderGateway.newLimit, dispatch, Market.verdict]
  cases found : engine.findBook symbol with
  | none =>
    obtain ⟨unknown, unbooked⟩ := MatchingEngine.hasSymbol_none found
    simp [unknown, unbooked]
  | some book =>
    obtain ⟨known, booked⟩ := MatchingEngine.hasSymbol_some found
    simp only [known, booked, valid.contains_eq found, MatchingEngine.canStoreLimit_eq found id]
    cases book.view.contains id with
    | true => simp
    | false => simp [MatchingEngine.apply]

theorem newMarket_dispatch (side : Side) (quantity : Quantity) :
    OrderGateway.newMarket config engine symbol id side quantity =
      dispatch config engine (.newMarket symbol id side quantity) := by
  rw [OrderGateway.newMarket, dispatch, Market.verdict]
  cases found : engine.findBook symbol with
  | none =>
    obtain ⟨unknown, unbooked⟩ := MatchingEngine.hasSymbol_none found
    simp [unknown, unbooked]
  | some book =>
    obtain ⟨known, booked⟩ := MatchingEngine.hasSymbol_some found
    have spared : engine.stores (.newMarket symbol id side quantity) = true := by
      simp [MatchingEngine.stores, Command.target, found, OrderBook.stores]
    simp only [known, booked, valid.contains_eq found, spared]
    cases book.view.contains id with
    | true => simp
    | false => simp [MatchingEngine.apply]

theorem cancel_dispatch :
    OrderGateway.cancel engine symbol id = dispatch config engine (.cancel symbol id) := by
  rw [OrderGateway.cancel, dispatch, Market.verdict]
  cases found : engine.findBook symbol with
  | none =>
    obtain ⟨unknown, unbooked⟩ := MatchingEngine.hasSymbol_none found
    simp [unknown, unbooked]
  | some book =>
    obtain ⟨known, booked⟩ := MatchingEngine.hasSymbol_some found
    have spared : engine.stores (.cancel symbol id) = true := by
      simp [MatchingEngine.stores, Command.target, found, OrderBook.stores]
    simp only [known, booked, valid.contains_eq found, spared]
    cases book.view.contains id with
    | true => simp [MatchingEngine.apply]
    | false => simp

theorem modify_dispatch (newPrice : Price) (newQuantity : Quantity) :
    OrderGateway.modify config engine symbol id newPrice newQuantity =
      dispatch config engine (.modify symbol id newPrice newQuantity) := by
  rw [OrderGateway.modify, dispatch, Market.verdict]
  cases found : engine.findBook symbol with
  | none =>
    obtain ⟨unknown, unbooked⟩ := MatchingEngine.hasSymbol_none found
    simp [unknown, unbooked]
  | some book =>
    obtain ⟨known, booked⟩ := MatchingEngine.hasSymbol_some found
    simp only [known, booked, valid.contains_eq found, MatchingEngine.canApplyModify_eq found]
    cases book.view.contains id with
    | false => simp
    | true =>
      by_cases zero : newQuantity = 0
      · subst zero
        have spared : engine.stores (.modify symbol id newPrice 0) = true := by
          rw [← MatchingEngine.canApplyModify_eq found, MatchingEngine.canApplyModify, found]
          exact book.canApplyModify_zero id newPrice
        simp [spared, MatchingEngine.apply]
      · simp [zero, MatchingEngine.apply]

end

/-- Every command takes the same three ways through the gateway. -/
theorem applyCommand_eq (command : Command) :
    applyCommand config engine command = dispatch config engine command := by
  cases command with
  | registerSymbol name => rfl
  | newLimit symbol id side price quantity tif => exact newLimit_dispatch config valid ..
  | newMarket symbol id side quantity => exact newMarket_dispatch config valid ..
  | cancel symbol id => exact cancel_dispatch config valid ..
  | modify symbol id price quantity => exact modify_dispatch config valid ..

/-- A rejected command changes nothing and emits nothing. An accepted one does what it does
on the market. -/
theorem applyCommand_cases (command : Command) :
    (∃ reason, applyCommand config engine command = (engine, .reject reason)) ∨
      ∃ after events, applyCommand config engine command = (after, .accept events) ∧
        engine.view.verdict config command = .none ∧
        Agrees MatchingEngine.Valid MatchingEngine.view (after, events)
          (engine.view.apply command) := by
  rw [applyCommand_eq config valid, dispatch]
  split
  · exact Or.inl ⟨_, rfl⟩
  · rename_i allowed
    split
    · exact Or.inl ⟨_, rfl⟩
    · rename_i stored
      have agrees := valid.apply (by simpa using stored : engine.stores command = true)
      exact Or.inr ⟨_, _, rfl, not_not.mp allowed, agrees⟩

end Dispatch

end Qsl
