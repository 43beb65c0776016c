import Qsl.EventStream
import Qsl.Protocol

namespace Qsl

open List

section Count

variable {taker other : Taker}

/-- How many trades a walk makes rests on the prices it crosses, not on who takes. -/
theorem sweep_count (alike : ∀ price, taker.crosses price = other.crosses price)
    (orders : List Order) (quantity : Quantity) :
    (sweep taker orders quantity).trades.length = (sweep other orders quantity).trades.length := by
  induction orders generalizing quantity with
  | nil => rfl
  | cons maker rest ih =>
    by_cases stopped : quantity = 0 ∨ taker.crosses maker.price = false
    · rw [sweep_stop taker stopped]
      rw [alike] at stopped
      rw [sweep_stop other stopped]
    · rw [not_or, Bool.not_eq_false] at stopped
      have crossing := (alike maker.price).symm.trans stopped.2
      rw [(sweep_cons taker rest stopped.1 stopped.2).1,
        (sweep_cons other rest stopped.1 crossing).1, length_cons, length_cons, ih]

/-- Every trade takes at least one off the quantity. -/
theorem sweep_count_le {orders : List Order} (positive : ∀ order ∈ orders, 0 < order.quantity)
    (quantity : Quantity) :
    (sweep taker orders quantity).trades.length +
      (sweep taker orders quantity).remaining.toNat ≤ quantity.toNat := by
  induction orders generalizing quantity with
  | nil => simp
  | cons maker rest ih =>
    by_cases stopped : quantity = 0 ∨ taker.crosses maker.price = false
    · rw [sweep_stop taker stopped]
      simp
    · rw [not_or, Bool.not_eq_false] at stopped
      obtain ⟨trades, _, remaining⟩ := sweep_cons taker rest stopped.1 stopped.2
      have later := ih (fun order member => positive order (mem_cons_of_mem _ member))
        (quantity - min quantity maker.quantity)
      have filled := fill_covered quantity maker.quantity
      have some : 0 < (min quantity maker.quantity).toNat := by
        have first : 0 < maker.quantity.toNat := positive maker mem_cons_self
        have wanted : 0 < quantity.toNat := UInt32.pos_iff_ne_zero.mpr stopped.1
        rcases fill_cases quantity maker.quantity with ⟨_, same, _⟩ | ⟨_, same, _, _⟩
        · rw [same]
          exact first
        · rw [same]
          exact wanted
      rw [trades, remaining, length_cons]
      omega

end Count

theorem matchTaker_count_le {book : Book} (valid : book.WellFormed) (taker : Taker)
    (quantity : Quantity) : (book.matchTaker taker quantity).trades.length ≤ quantity.toNat :=
  Nat.le_trans (Nat.le_add_right _ _) (sweep_count_le (valid.positive _) quantity)

theorem Market.apply_count {market : Market} {command : Command} {symbol : SymbolId} {op : BookOp}
    {book : Book} (targets : command.target = some (symbol, op))
    (known : market.books.find? symbol = some book) (admitted : book.admits op = true) :
    (market.apply command).2.countP EngineEvent.isTrade = (book.apply op).2.trades.length := by
  rw [Market.apply_eq_call targets, Market.call_admitted known admitted, countP_cons,
    tradeEvents_count, opening_isTrade]
  rfl

theorem MatchingEngine.Valid.fillCount_eq {engine : MatchingEngine} (valid : engine.Valid)
    {symbol : SymbolId} {book : OrderBook} (found : engine.findBook symbol = some book)
    (side : Side) (price : Price) (type : OrderType) (quantity : Quantity) :
    engine.fillCount symbol side price type quantity =
      (book.view.matchTaker ⟨0, side, price, type == .market⟩ quantity).trades.length := by
  rw [MatchingEngine.fillCount, found]
  show book.observe.fillCount side price (type == .market) quantity = _
  rw [(valid symbol book found).observe_eq]
  rfl

/-- The command that a wire order stands for. -/
def Protocol.NewOrder.command (order : Protocol.NewOrder) : Command :=
  if order.type = .market then
    .newMarket order.symbol order.orderId order.side order.quantity
  else
    .newLimit order.symbol order.orderId order.side order.price order.quantity order.tif

section Preview

variable {engine : MatchingEngine} (config : RiskConfig) (valid : engine.Valid)
  (order : Protocol.NewOrder)

/-- The preview asked with a wire order. -/
def previewOrder (engine : MatchingEngine) : NewOrderPreview :=
  OrderGateway.previewNewOrder config engine order.symbol order.orderId order.side order.price
    order.quantity order.type order.tif

include valid

/-- The preview makes the checks of the gateway. -/
theorem preview_eq :
    previewOrder config order engine =
      if engine.view.verdict config order.command ≠ .none ∨ engine.stores order.command = false then
        ⟨false, 0⟩
      else ⟨true, engine.fillCount order.symbol order.side order.price order.type
        order.quantity⟩ := by
  obtain ⟨id, symbol, price, quantity, side, type, tif⟩ := order
  rw [previewOrder, OrderGateway.previewNewOrder]
  cases type with
  | limit =>
    show _ = if engine.view.verdict config (.newLimit symbol id side price quantity tif) ≠ .none ∨
      engine.stores (.newLimit symbol id side price quantity tif) = false then _ else _
    cases found : engine.findBook symbol with
    | none =>
      obtain ⟨unknown, unbooked⟩ := MatchingEngine.hasSymbol_none found
      simp [unknown, unbooked, Market.verdict]
    | some book =>
      obtain ⟨known, booked⟩ := MatchingEngine.hasSymbol_some found
      simp only [known, booked, Market.verdict, valid.contains_eq found,
        MatchingEngine.canStoreLimit_eq found id]
      cases book.view.contains id with
      | true => simp
      | false =>
        by_cases allowed : config.checkLimit side price quantity = .none
        · cases engine.stores (.newLimit symbol id side price quantity tif) <;> simp [allowed]
        · simp [allowed]
  | market =>
    show _ = if engine.view.verdict config (.newMarket symbol id side quantity) ≠ .none ∨
      engine.stores (.newMarket symbol id side quantity) = false then _ else _
    cases found : engine.findBook symbol with
    | none =>
      obtain ⟨unknown, unbooked⟩ := MatchingEngine.hasSymbol_none found
      simp [unknown, unbooked, Market.verdict]
    | some book =>
      obtain ⟨known, booked⟩ := MatchingEngine.hasSymbol_some found
      have spared : engine.stores (.newMarket symbol id side quantity) = true := by
        simp [MatchingEngine.stores, Command.target, found, OrderBook.stores]
      simp only [known, booked, Market.verdict, valid.contains_eq found, spared]
      cases book.view.contains id with
      | true => simp
      | false =>
        by_cases allowed : config.checkMarket side quantity = .none <;> simp [allowed]

/-- An admitted order makes as many trades as the book counts, and no more than its quantity. -/
theorem fresh_count {op : BookOp} {taker : Taker} {view : Book}
    (targets : order.command.target = some (order.symbol, op))
    (known : engine.view.books.find? order.symbol = some view) (admitted : view.admits op = true)
    (trades : (view.apply op).2.trades = (view.matchTaker taker order.quantity).trades)
    (alike : ∀ price, taker.crosses price =
      Taker.crosses ⟨0, order.side, order.price, order.type == .market⟩ price)
    (sided : taker.side = order.side) :
    let events := (engine.view.apply order.command).2
    engine.fillCount order.symbol order.side order.price order.type order.quantity =
        events.countP EngineEvent.isTrade ∧
      events.countP EngineEvent.isTrade ≤ order.quantity.toNat := by
  have wellFormed := valid.wellFormed order.symbol view known
  simp only [Market.apply_count targets known admitted, trades]
  rw [MatchingEngine.view_find?] at known
  obtain ⟨book, found, rfl⟩ := Option.map_eq_some_iff.mp known
  refine ⟨?_, matchTaker_count_le wellFormed taker order.quantity⟩
  rw [valid.fillCount_eq found, Book.matchTaker, Book.matchTaker, sided]
  exact (sweep_count alike _ _).symm

/-- The trades an accepted wire order makes are as many as the preview counts, and no more than
its quantity. -/
theorem fillCount_exact (allowed : engine.view.verdict config order.command = .none) :
    let events := (engine.view.apply order.command).2
    engine.fillCount order.symbol order.side order.price order.type order.quantity =
        events.countP EngineEvent.isTrade ∧
      events.countP EngineEvent.isTrade ≤ order.quantity.toNat := by
  obtain ⟨id, symbol, price, quantity, side, type, tif⟩ := order
  cases type with
  | limit =>
    have targets : (Command.newLimit symbol id side price quantity tif).target =
      some (symbol, .addLimit id side price quantity tif) := rfl
    obtain ⟨view, known, admitted⟩ := Market.verdict_known targets allowed
    have fresh : view.contains id = false := by simpa [Book.admits] using admitted
    have trades : (view.apply (.addLimit id side price quantity tif)).2.trades =
        (view.matchTaker ⟨id, side, price, false⟩ quantity).trades := by
      show (view.addLimit id side price quantity tif).2 = _
      rw [Book.addLimit_fresh fresh, Book.take_trades]
    exact fresh_count valid _ targets known admitted trades (fun _ => rfl) rfl
  | market =>
    have targets : (Command.newMarket symbol id side quantity).target =
      some (symbol, .addMarket id side quantity) := rfl
    obtain ⟨view, known, admitted⟩ := Market.verdict_known targets allowed
    have fresh : view.contains id = false := by simpa [Book.admits] using admitted
    have trades : (view.apply (.addMarket id side quantity)).2.trades =
        (view.matchTaker ⟨id, side, 0, true⟩ quantity).trades := by
      show (view.addMarket id side quantity).2 = _
      rw [Book.addMarket_fresh fresh, Book.take_trades]
    -- a market order crosses every price, whatever its own
    have alike : ∀ other, Taker.crosses ⟨id, side, 0, true⟩ other =
        Taker.crosses ⟨0, side, price, true⟩ other := by
      intro other
      simp [Taker.crosses, canMatchLevel]
    exact fresh_count valid _ targets known admitted trades alike rfl

/-- The preview agrees with the call that follows it. -/
theorem preview_agrees :
    let result := (applyCommand config engine order.command).2
    (previewOrder config order engine).accepted = result.accepted ∧
      (result.accepted = true →
        (previewOrder config order engine).fillCount = result.events.countP EngineEvent.isTrade ∧
          result.events.countP EngineEvent.isTrade ≤ order.quantity.toNat) := by
  rw [preview_eq config valid order, applyCommand_eq config valid, dispatch]
  by_cases allowed : engine.view.verdict config order.command = .none
  · cases stored : engine.stores order.command with
    | false => simp [allowed, GatewayResult.reject]
    | true =>
      have answer := (valid.apply stored).answer
      have counts := fillCount_exact config valid order allowed
      simp only [← answer] at counts
      simpa [allowed, GatewayResult.accept] using counts
  · simp [allowed, GatewayResult.reject]

end Preview

end Qsl
