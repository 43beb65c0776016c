import Qsl.EventStream
import Mathlib.Algebra.BigOperators.Group.Finset.Basic

namespace Qsl

open List OrderedMap

/-- The command names the symbol, or is a registration. -/
def Command.concerns (symbol : SymbolId) (command : Command) : Bool :=
  match command.target with
  | none => true
  | some (other, _) => other = symbol

/-- The registrations and the commands that name the symbol. -/
def restrict (symbol : SymbolId) (commands : List Command) : List Command :=
  commands.filter (Command.concerns symbol)

def EngineEvent.trade? : EngineEvent → Option Trade
  | .tradeEvent _ _ taker maker price quantity => some ⟨taker, maker, price, quantity⟩
  | _ => none

/-- A result but for the sequence numbers: verdict, reason and trades. -/
def GatewayResult.outcome (result : GatewayResult) : Bool × RejectReason × List Trade :=
  (result.accepted, result.reason, result.events.filterMap EngineEvent.trade?)

theorem tradeEvents_trade? (symbol : SymbolId) (seq : SeqNo) (trades : List Trade) :
    (tradeEvents symbol seq trades).filterMap EngineEvent.trade? = trades := by
  induction trades generalizing seq with
  | nil => rfl
  | cons trade trades ih =>
    rw [tradeEvents, filterMap_cons, ih]
    rfl

theorem call_trade? (op : BookOp) (symbol : SymbolId) (seq : SeqNo) (trades : List Trade) :
    (op.opening symbol seq :: tradeEvents symbol seq trades).filterMap EngineEvent.trade? =
      trades := by
  cases op <;> exact tradeEvents_trade? symbol seq trades

namespace Market

/-- Markets that one symbol cannot tell apart: the same registrations and the same book. -/
structure Alike (symbol : SymbolId) (market other : Market) : Prop where
  registry : other.registry = market.registry
  known : ∀ id, other.books.contains id = market.books.contains id
  book : other.books.find? symbol = market.books.find? symbol

variable {storage : Storage} {config : RiskConfig} {market other : Market} {symbol : SymbolId}
  {command : Command} {op : BookOp}

theorem Alike.verdict (alike : market.Alike symbol other) (config : RiskConfig)
    (targets : command.target = some (symbol, op)) :
    other.verdict config command = market.verdict config command := by
  cases command <;> cases targets <;> simp only [Market.verdict, alike.book]

theorem Alike.rooms (alike : market.Alike symbol other) (storage : Storage)
    (targets : command.target = some (symbol, op)) :
    other.rooms storage command = market.rooms storage command := by
  simp only [Market.rooms, targets, alike.book]

theorem Alike.registerSymbol (alike : market.Alike symbol other) (name : SymbolName) :
    (market.registerSymbol name).Alike symbol (other.registerSymbol name) := by
  have known := alike.known (market.registry.intern name).2
  simp only [Market.registerSymbol, alike.registry]
  cases taken : market.books.contains (market.registry.intern name).2 with
  | true =>
    rw [taken] at known
    simp only [known, if_true]
    exact ⟨rfl, alike.known, alike.book⟩
  | false =>
    rw [taken] at known
    simp only [known, Bool.false_eq_true, if_false]
    refine ⟨rfl, ?_, ?_⟩
    · intro id
      have same := alike.known id
      simp only [OrderedMap.contains, find?_insert] at same ⊢
      split
      · rfl
      · exact same
    · simp only [find?_insert, alike.book]

/-- Writing a book that is there leaves what is known. -/
theorem contains_write {book after : Book} (known : market.books.find? symbol = some book)
    (id : SymbolId) :
    (market.books.insert symbol after).contains id = market.books.contains id := by
  simp only [OrderedMap.contains, find?_insert]
  split
  · rename_i same
    rw [same, known]
    rfl
  · rfl

/-- A command that names another symbol is not noticed. -/
theorem Alike.elsewhere (alike : market.Alike symbol other)
    (unseen : command.concerns symbol = false) :
    (market.exchange storage config command).1.Alike symbol other := by
  rcases market.exchange_cases storage config command with
    ⟨reason, _, rejected⟩ | ⟨allowed, _, applied⟩
  · rw [rejected]
    exact alike
  · rw [applied]
    cases targets : command.target with
    | none => simp [Command.concerns, targets] at unseen
    | some target =>
      have apart : target.1 ≠ symbol := by
        simpa [Command.concerns, targets] using unseen
      obtain ⟨book, known, admitted⟩ := verdict_known targets allowed
      rw [apply_eq_call targets, call_admitted known admitted]
      refine ⟨alike.registry, ?_, ?_⟩
      · intro id
        rw [alike.known id, contains_write known]
      · rw [alike.book, find?_insert, if_neg (Ne.symm apart)]

/-- A command that the symbol sees goes the same way in both markets. -/
theorem Alike.exchange (alike : market.Alike symbol other)
    (seen : command.concerns symbol = true) :
    (market.exchange storage config command).1.Alike symbol
        (other.exchange storage config command).1 ∧
      (market.exchange storage config command).2.outcome =
        (other.exchange storage config command).2.outcome ∧
      (market.exchange storage config command).2.events.length =
        (other.exchange storage config command).2.events.length := by
  cases targets : command.target with
  | none =>
    cases command with
    | registerSymbol name => exact ⟨alike.registerSymbol name, rfl, rfl⟩
    | _ => cases targets
  | some target =>
    obtain ⟨named, op⟩ := target
    obtain rfl : named = symbol := by
      simpa [Command.concerns, targets] using seen
    simp only [Market.exchange, alike.verdict config targets, alike.rooms storage targets]
    by_cases allowed : market.verdict config command = .none
    · rw [if_neg (not_not.mpr allowed), if_neg (not_not.mpr allowed)]
      cases market.rooms storage command with
      | false => exact ⟨alike, rfl, rfl⟩
      | true =>
        obtain ⟨book, known, admitted⟩ := verdict_known targets allowed
        have also : other.books.find? named = some book := alike.book.trans known
        simp only [Bool.not_true, Bool.false_eq_true, if_false, apply_eq_call targets,
          call_admitted known admitted, call_admitted also admitted]
        refine ⟨⟨alike.registry, ?_, ?_⟩, ?_, ?_⟩
        · intro id
          rw [contains_write known, contains_write also]
          exact alike.known id
        · simp only [find?_insert, if_true]
        · simp only [GatewayResult.outcome, GatewayResult.accept, call_trade?]
        · simp only [GatewayResult.accept, length_cons, tradeEvents_length]
    · rw [if_pos allowed, if_pos allowed]
      exact ⟨alike, rfl, rfl⟩

variable (storage config)

/-- Leaving out what names other symbols is not noticed by a symbol. -/
theorem alike_run (symbol : SymbolId)
    (commands : List Command) :
    let full := Machine.run (Market.exchange storage config) Market.empty commands
    let kept := Machine.run (Market.exchange storage config) Market.empty
      (restrict symbol commands)
    full.1.Alike symbol kept.1 ∧
      ((commands.zip full.2).filter (fun step => step.1.concerns symbol)).map
          (fun step => (step.2.outcome, step.2.events.length)) =
        kept.2.map (fun result => (result.outcome, result.events.length)) :=
  Machine.run_purge (Market.exchange storage config) (Command.concerns symbol)
    (Market.Alike symbol) (fun result => (result.outcome, result.events.length))
    (fun _ _ _ unseen alike => alike.elsewhere unseen)
    (fun _ _ _ seen alike =>
      ⟨(alike.exchange seen).1, Prod.ext (alike.exchange seen).2.1 (alike.exchange seen).2.2⟩)
    ⟨rfl, fun _ => rfl, rfl⟩ commands

/-- The market counts every event it emits. -/
theorem exchange_seq (market : Market)
    (command : Command) :
    (market.exchange storage config command).1.seq =
      market.seq + (market.exchange storage config command).2.events.length := by
  rcases market.exchange_cases storage config command with
    ⟨reason, _, rejected⟩ | ⟨_, _, applied⟩
  · rw [rejected]
    rfl
  · rw [applied]
    rcases market.apply_target command with ⟨name, _, registered⟩ | ⟨symbol, op, targets, _⟩
    · rw [registered]
      rfl
    · rcases market.apply_events targets with idle | ⟨book, _, _, done⟩
      · rw [idle]
        rfl
      · rw [done]
        show market.seq + 1 + _ = market.seq + List.length (_ :: _)
        rw [length_cons, tradeEvents_length]
        exact Nat.add_right_comm market.seq 1 _

theorem run_seq (market : Market)
    (commands : List Command) :
    let run := Machine.run (Market.exchange storage config) market commands
    run.1.seq = market.seq + (run.2.map (fun result => result.events.length)).sum := by
  induction commands generalizing market with
  | nil => rfl
  | cons command commands ih =>
    have rest := ih (market.exchange storage config command).1
    simp only [Machine.run_cons, map_cons, sum_cons] at rest ⊢
    rw [rest, exchange_seq, Nat.add_assoc]

/-- Only accepted calls emit, and each is seen by its own symbol alone. -/
theorem registration_silent (market : Market)
    {command : Command} (untargeted : command.target = none) :
    (market.exchange storage config command).2.events = [] := by
  cases command with
  | registerSymbol name => rfl
  | _ => cases untargeted

/-- The events of a run, counted symbol by symbol. -/
theorem events_by_symbol (market : Market)
    (symbols : Finset SymbolId) {commands : List Command}
    (named : ∀ command ∈ commands, ∀ symbol op, command.target = some (symbol, op) →
      symbol ∈ symbols) :
    let run := Machine.run (Market.exchange storage config) market commands
    (run.2.map (fun result => result.events.length)).sum =
      ∑ symbol ∈ symbols, (((commands.zip run.2).filter (fun step => step.1.concerns symbol)).map
        (fun step => step.2.events.length)).sum := by
  induction commands generalizing market with
  | nil => simp
  | cons command commands ih =>
    have rest := ih (market.exchange storage config command).1
      (fun other member => named other (mem_cons_of_mem _ member))
    simp only [Machine.run_cons, map_cons, sum_cons, zip_cons_cons] at rest ⊢
    have split : ∀ symbol : SymbolId, ∀ steps : List (Command × GatewayResult),
        ((((command, (market.exchange storage config command).2) :: steps).filter
          (fun step => step.1.concerns symbol)).map (fun step => step.2.events.length)).sum =
        (if command.concerns symbol then
          (market.exchange storage config command).2.events.length else 0) +
        ((steps.filter (fun step => step.1.concerns symbol)).map
          (fun step => step.2.events.length)).sum := by
      intro symbol steps
      rw [filter_cons]
      split
      · rw [map_cons, sum_cons]
      · rw [Nat.zero_add]
    simp only [split, Finset.sum_add_distrib, rest]
    congr 1
    cases targets : command.target with
    | none => simp [registration_silent storage config market targets]
    | some target =>
      have inside := named command mem_cons_self target.1 target.2 targets
      simp only [Command.concerns, targets, decide_eq_true_eq]
      rw [Finset.sum_eq_single target.1 (fun other _ apart => if_neg (Ne.symm apart))
        (fun outside => absurd inside outside), if_pos rfl]

/-- The count of a run is the sum of the counts of its restrictions. -/
theorem seq_by_symbol (symbols : Finset SymbolId)
    {commands : List Command}
    (named : ∀ command ∈ commands, ∀ symbol op, command.target = some (symbol, op) →
      symbol ∈ symbols) :
    (Machine.run (Market.exchange storage config) Market.empty commands).1.seq =
      ∑ symbol ∈ symbols, (Machine.run (Market.exchange storage config) Market.empty
        (restrict symbol commands)).1.seq := by
  have counted := events_by_symbol storage config Market.empty symbols named
  rw [run_seq, counted]
  show 0 + _ = _
  rw [Nat.zero_add]
  apply Finset.sum_congr rfl
  intro symbol _
  have shown := congrArg (List.map Prod.snd) (alike_run storage config symbol commands).2
  simp only [map_map, Function.comp_def] at shown
  rw [run_seq, shown]
  exact (Nat.zero_add _).symm

/-- Streams with the same restrictions lead to the same market. -/
theorem books_by_symbol {commands others : List Command}
    (same : ∀ symbol, restrict symbol commands = restrict symbol others) :
    (Machine.run (Market.exchange storage config) Market.empty commands).1.books =
      (Machine.run (Market.exchange storage config) Market.empty others).1.books := by
  apply eq_of_find?_eq
  intro symbol
  have first := (alike_run storage config symbol commands).1.book
  have second := (alike_run storage config symbol others).1.book
  rw [same symbol] at first
  exact first.symm.trans second

/-- The snapshot of a symbol is that of its book. -/
theorem snapshot_symbol (market : Market) (symbol : SymbolId) :
    market.snapshot.symbols.find? (fun seen => seen.symbol = symbol) =
      (market.books.find? symbol).map (fun book =>
        ⟨symbol, book.bestPrice .buy, book.bestPrice .sell, book.restingOrders.length,
          book.levelViews .buy, book.levelViews .sell⟩) := by
  rw [snapshot, find?_map]
  show Option.map _ (market.books.entries.find? (fun entry => entry.1 = symbol)) = _
  rw [OrderedMap.find?_entries, Option.map_map]
  rfl

end Market

/-- Symbols do not interfere. For one symbol a run is the run of the registrations and its own
commands, the sequence counter is the sum over the symbols, and the interleaving of the
symbols' streams leaves no trace in the final snapshot. -/
theorem symbols_independent (storage : Storage) (config : RiskConfig) :
    (∀ (commands : List Command) (symbol : SymbolId),
      let full := Machine.run (applyCommand config) (MatchingEngine.new storage) commands
      let kept := Machine.run (applyCommand config) (MatchingEngine.new storage)
        (restrict symbol commands)
      ((commands.zip full.2).filter (fun step => step.1.concerns symbol)).map
          (fun step => step.2.outcome) = kept.2.map GatewayResult.outcome ∧
        full.1.snapshot.symbols.find? (fun seen => seen.symbol = symbol) =
          kept.1.snapshot.symbols.find? (fun seen => seen.symbol = symbol) ∧
        full.1.restingOrders symbol = kept.1.restingOrders symbol) ∧
    (∀ (commands : List Command) (symbols : Finset SymbolId),
      (∀ command ∈ commands, ∀ symbol op, command.target = some (symbol, op) →
        symbol ∈ symbols) →
      (Machine.run (applyCommand config) (MatchingEngine.new storage) commands).1.seq =
        ∑ symbol ∈ symbols, (Machine.run (applyCommand config) (MatchingEngine.new storage)
          (restrict symbol commands)).1.seq) ∧
    ∀ commands others : List Command,
      (∀ symbol, restrict symbol commands = restrict symbol others) →
      (Machine.run (applyCommand config) (MatchingEngine.new storage) commands).1.snapshot =
        (Machine.run (applyCommand config) (MatchingEngine.new storage) others).1.snapshot := by
  have exchanged : ∀ commands,
      let run := Machine.run (applyCommand config) (MatchingEngine.new storage) commands
      run.1.Sound storage ∧
        Machine.run (Market.exchange storage config) Market.empty commands =
          (run.1.view, run.2) :=
    MatchingEngine.exchange_run storage config
  have counted : ∀ (commands : List Command) (symbols : Finset SymbolId),
      (∀ command ∈ commands, ∀ symbol op, command.target = some (symbol, op) →
        symbol ∈ symbols) →
      (Machine.run (applyCommand config) (MatchingEngine.new storage) commands).1.seq =
        ∑ symbol ∈ symbols, (Machine.run (applyCommand config) (MatchingEngine.new storage)
          (restrict symbol commands)).1.seq := by
    intro commands symbols named
    have sum := Market.seq_by_symbol storage config symbols named
    simp only [(exchanged _).2] at sum
    exact sum
  refine ⟨?_, counted, ?_⟩
  · intro commands symbol full kept
    obtain ⟨sound, viewed⟩ := exchanged commands
    obtain ⟨soundKept, viewedKept⟩ := exchanged (restrict symbol commands)
    obtain ⟨alike, shown⟩ := Market.alike_run storage config symbol commands
    rw [viewed, viewedKept] at alike shown
    have outcomes := congrArg (List.map Prod.fst) shown
    simp only [map_map, Function.comp_def] at outcomes
    refine ⟨outcomes, ?_, ?_⟩
    · rw [sound.valid.snapshot_eq, soundKept.valid.snapshot_eq, Market.snapshot_symbol,
        Market.snapshot_symbol, alike.book]
    · rw [sound.valid.restingOrders_eq, soundKept.valid.restingOrders_eq, Market.restingOrders,
        Market.restingOrders, alike.book]
  · intro commands others same
    obtain ⟨sound, viewed⟩ := exchanged commands
    obtain ⟨soundOther, viewedOther⟩ := exchanged others
    have books := Market.books_by_symbol storage config same
    rw [viewed, viewedOther] at books
    -- every symbol that either stream names
    let symbols := ((commands ++ others).filterMap
      (fun command => command.target.map Prod.fst)).toFinset
    have within : ∀ command ∈ commands ++ others, ∀ symbol op,
        command.target = some (symbol, op) → symbol ∈ symbols := by
      intro command member symbol op targets
      rw [mem_toFinset, mem_filterMap]
      exact ⟨command, member, by rw [targets]; rfl⟩
    have seq := counted commands symbols
      (fun command member => within command (mem_append_left _ member))
    have seqOther := counted others symbols
      (fun command member => within command (mem_append_right _ member))
    simp only [same] at seq
    rw [sound.valid.snapshot_eq, soundOther.valid.snapshot_eq, Market.snapshot, Market.snapshot]
    rw [show (MatchingEngine.view _).seq = _ from seq.trans seqOther.symm, books]
    rfl

/-- Two symbols in either order, with the same ids. -/
theorem symbols_independent_swap :
    let first : List Command := [.registerSymbol [65], .registerSymbol [66],
      .newLimit 0 1 .sell 10 5 .gtc, .newLimit 1 1 .buy 9 4 .gtc, .newLimit 0 2 .buy 10 3 .gtc]
    let second : List Command := [.registerSymbol [65], .registerSymbol [66],
      .newLimit 1 1 .buy 9 4 .gtc, .newLimit 0 1 .sell 10 5 .gtc, .newLimit 0 2 .buy 10 3 .gtc]
    (Machine.run (applyCommand ⟨100, 1000⟩) (MatchingEngine.new .baseline) first).1.snapshot =
      (Machine.run (applyCommand ⟨100, 1000⟩) (MatchingEngine.new .baseline) second).1.snapshot := by
  intro first second
  apply (symbols_independent .baseline ⟨100, 1000⟩).2.2 first second
  intro symbol
  by_cases zero : (0 : SymbolId) = symbol
  · subst zero
    decide
  · by_cases one : (1 : SymbolId) = symbol
    · subst one
      decide
    · simp [first, second, restrict, filter_cons, Command.concerns, Command.target, zero, one]

end Qsl
