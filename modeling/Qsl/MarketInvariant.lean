import Qsl.Replay

namespace Qsl

def EngineEvent.isTrade : EngineEvent → Bool
  | .tradeEvent .. => true
  | _ => false

theorem opening_isTrade (op : BookOp) (symbol : SymbolId) (seq : SeqNo) :
    (op.opening symbol seq).isTrade = false := by
  cases op <;> rfl

theorem tradeEvents_count (symbol : SymbolId) (seq : SeqNo) (trades : List Trade) :
    (tradeEvents symbol seq trades).countP EngineEvent.isTrade = trades.length := by
  induction trades generalizing seq with
  | nil => rfl
  | cons trade trades ih =>
    rw [tradeEvents, List.countP_cons_of_pos rfl, ih, List.length_cons]

namespace Market

/-- Every book is well formed. -/
def WellFormed (market : Market) : Prop :=
  ∀ symbol book, market.books.find? symbol = some book → book.WellFormed

theorem wellFormed_empty : empty.WellFormed := by
  intro symbol book found
  cases found

variable {market : Market}

/-- A registration adds at most an empty book. -/
theorem registerSymbol_find? (market : Market) (name : SymbolName) (symbol : SymbolId) :
    (market.registerSymbol name).books.find? symbol = market.books.find? symbol ∨
      market.books.find? symbol = none ∧
        (market.registerSymbol name).books.find? symbol = some .empty :=
  market.books.find?_insert_missing _ symbol _

theorem WellFormed.registerSymbol (valid : market.WellFormed) (name : SymbolName) :
    (market.registerSymbol name).WellFormed := by
  intro symbol book found
  rcases market.registerSymbol_find? name symbol with same | ⟨_, fresh⟩
  · exact valid symbol book (same.symm.trans found)
  · cases fresh.symm.trans found
    exact Book.wellFormed_empty

/-- A call that the book admits, spelled out. -/
theorem call_admitted {symbol : SymbolId} {book : Book} {op : BookOp}
    (known : market.books.find? symbol = some book) (admitted : book.admits op = true) :
    market.call symbol op =
      ({ market with
          books := market.books.insert symbol (book.apply op).1
          seq := market.seq + 1 + (book.apply op).2.trades.length },
        op.opening symbol (market.seq + 1) ::
          tradeEvents symbol (market.seq + 1) (book.apply op).2.trades) := by
  rw [call, known]
  simp only [admitted, if_true]

/-- A call changes nothing, or one book admits it. -/
theorem call_cases (market : Market) (symbol : SymbolId) (op : BookOp) :
    market.call symbol op = (market, []) ∨
      ∃ book, market.books.find? symbol = some book ∧ book.admits op = true := by
  cases known : market.books.find? symbol with
  | none => exact Or.inl (call_unknown known)
  | some book =>
    cases admitted : book.admits op with
    | false => exact Or.inl (call_turned known admitted)
    | true => exact Or.inr ⟨book, rfl, admitted⟩

theorem WellFormed.call (valid : market.WellFormed) (symbol : SymbolId) (op : BookOp) :
    (market.call symbol op).1.WellFormed := by
  rcases market.call_cases symbol op with idle | ⟨book, known, admitted⟩
  · rw [idle]
    exact valid
  · rw [call_admitted known admitted]
    intro other after found
    rw [OrderedMap.find?_insert] at found
    split at found
    · cases found
      exact (valid symbol book known).apply op
    · exact valid other after found

/-- A command is a registration or a call on one book. -/
theorem apply_target (market : Market) (command : Command) :
    (∃ name, command = .registerSymbol name ∧
        market.apply command = (market.registerSymbol name, [])) ∨
      ∃ symbol op, command.target = some (symbol, op) ∧
        market.apply command = market.call symbol op := by
  cases command with
  | registerSymbol name => exact Or.inl ⟨name, rfl, rfl⟩
  | newLimit symbol id side price quantity tif => exact Or.inr ⟨symbol, _, rfl, rfl⟩
  | newMarket symbol id side quantity => exact Or.inr ⟨symbol, _, rfl, rfl⟩
  | cancel symbol id => exact Or.inr ⟨symbol, _, rfl, rfl⟩
  | modify symbol id price quantity => exact Or.inr ⟨symbol, _, rfl, rfl⟩

theorem apply_eq_call {command : Command} {symbol : SymbolId} {op : BookOp}
    (targets : command.target = some (symbol, op)) :
    market.apply command = market.call symbol op := by
  cases command <;> cases targets <;> rfl

theorem WellFormed.apply (valid : market.WellFormed) (command : Command) :
    (market.apply command).1.WellFormed := by
  rcases market.apply_target command with ⟨name, _, applied⟩ | ⟨symbol, op, _, applied⟩
  · rw [applied]
    exact valid.registerSymbol name
  · rw [applied]
    exact valid.call symbol op

section Verdict

variable {config : RiskConfig} {command : Command} {symbol : SymbolId} {op : BookOp}

theorem verdict_unknown (targets : command.target = some (symbol, op))
    (unknown : market.books.find? symbol = none) :
    market.verdict config command = .unknownSymbol := by
  cases command with
  | registerSymbol name => cases targets
  | _ =>
    cases targets
    simp only [verdict, unknown]

/-- A command the gateway lets through is one that its book admits. -/
theorem verdict_admits {book : Book} (targets : command.target = some (symbol, op))
    (known : market.books.find? symbol = some book)
    (allowed : market.verdict config command = .none) : book.admits op = true := by
  cases command with
  | registerSymbol name => cases targets
  | newLimit symbol id side price quantity tif =>
    cases targets
    rw [verdict, known] at allowed
    cases resting : book.contains id with
    | true => simp [resting] at allowed
    | false => rw [Book.admits, resting, Bool.not_false]
  | newMarket symbol id side quantity =>
    cases targets
    rw [verdict, known] at allowed
    cases resting : book.contains id with
    | true => simp [resting] at allowed
    | false => rw [Book.admits, resting, Bool.not_false]
  | cancel symbol id =>
    cases targets
    rw [verdict, known] at allowed
    cases resting : book.contains id with
    | true => rw [Book.admits, resting]
    | false => simp [resting] at allowed
  | modify symbol id price quantity =>
    cases targets
    rw [verdict, known] at allowed
    cases resting : book.contains id with
    | true => rw [Book.admits, resting]
    | false => simp [resting] at allowed

/-- An allowed command on a book is an admitted call. -/
theorem verdict_known (targets : command.target = some (symbol, op))
    (allowed : market.verdict config command = .none) :
    ∃ book, market.books.find? symbol = some book ∧ book.admits op = true := by
  cases known : market.books.find? symbol with
  | none =>
    rw [verdict_unknown targets known] at allowed
    cases allowed
  | some book => exact ⟨book, rfl, verdict_admits targets known allowed⟩

end Verdict

/-- The gateway over storage without limits: a command is rejected or applied. -/
def submit (config : RiskConfig) (market : Market) (command : Command) :
    Market × List EngineEvent :=
  if market.verdict config command = .none then market.apply command else (market, [])

/-- The market after commands through the gateway, with all events. -/
def submitAll (config : RiskConfig) : Market → List Command → Market × List EngineEvent
  | market, [] => (market, [])
  | market, command :: commands =>
    let (after, produced) := market.submit config command
    let (final, events) := submitAll config after commands
    (final, produced ++ events)

end Market

theorem MatchingEngine.Valid.wellFormed {engine : MatchingEngine} (valid : engine.Valid) :
    engine.view.WellFormed := by
  intro symbol book known
  rw [MatchingEngine.view_find?] at known
  obtain ⟨stored, found, rfl⟩ := Option.map_eq_some_iff.mp known
  exact (valid symbol stored found).wellFormed

/-- A run through the gateway to an engine that takes any order is that of the market. -/
theorem submitAll_unlimited (config : RiskConfig) {engine : MatchingEngine} (valid : engine.Valid)
    (unlimited : engine.Unlimited) (commands : List Command) :
    (submitAll config engine commands).1.Valid ∧
      engine.view.submitAll config commands =
        ((submitAll config engine commands).1.view, (submitAll config engine commands).2.2) := by
  induction commands generalizing engine with
  | nil => exact ⟨valid, rfl⟩
  | cons command commands ih =>
    simp only [submitAll, Market.submitAll, Market.submit, applyCommand_eq config valid, dispatch,
      unlimited.stores command]
    by_cases allowed : engine.view.verdict config command = .none
    · obtain ⟨kept, left, answer⟩ := valid.apply (unlimited.stores command)
      obtain ⟨final, same⟩ := ih kept (unlimited.apply command)
      have step : engine.view.apply command =
          ((engine.apply command).1.view, (engine.apply command).2) :=
        Prod.ext left.symm answer.symm
      simp only [allowed, ne_eq, not_true_eq_false, if_false, Bool.not_true, Bool.false_eq_true,
        if_true, step, same, GatewayResult.accept, and_true]
      exact final
    · obtain ⟨final, same⟩ := ih valid unlimited
      simp only [allowed, ne_eq, not_false_eq_true, if_true, if_false, same, GatewayResult.reject,
        List.nil_append, and_true]
      exact final

end Qsl
