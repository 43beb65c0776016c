import Qsl.Exchange
import Qsl.CallEffects

namespace Qsl

open List

variable {engine : MatchingEngine}

def EngineEvent.seqOf : EngineEvent → SeqNo
  | .orderAccepted seq .. => seq
  | .orderCanceled seq .. => seq
  | .orderModified seq .. => seq
  | .tradeEvent seq .. => seq

def EngineEvent.symbolOf : EngineEvent → SymbolId
  | .orderAccepted _ symbol _ => symbol
  | .orderCanceled _ symbol _ => symbol
  | .orderModified _ symbol _ => symbol
  | .tradeEvent _ symbol .. => symbol

@[simp] theorem opening_seqOf (op : BookOp) (symbol : SymbolId) (seq : SeqNo) :
    (op.opening symbol seq).seqOf = seq := by
  cases op <;> rfl

@[simp] theorem opening_symbolOf (op : BookOp) (symbol : SymbolId) (seq : SeqNo) :
    (op.opening symbol seq).symbolOf = symbol := by
  cases op <;> rfl

@[simp] theorem tradeEvents_length (symbol : SymbolId) (seq : SeqNo) (trades : List Trade) :
    (tradeEvents symbol seq trades).length = trades.length := by
  induction trades generalizing seq with
  | nil => rfl
  | cons trade trades ih => rw [tradeEvents, length_cons, ih, length_cons]

theorem tradeEvents_seqOf (symbol : SymbolId) (seq : SeqNo) (trades : List Trade) :
    (tradeEvents symbol seq trades).map EngineEvent.seqOf =
      List.range' (seq + 1) trades.length := by
  induction trades generalizing seq with
  | nil => rfl
  | cons trade trades ih =>
    rw [tradeEvents, map_cons, ih, length_cons, range'_succ]
    rfl

theorem mem_tradeEvents {symbol : SymbolId} {seq : SeqNo} {trades : List Trade}
    {event : EngineEvent} (member : event ∈ tradeEvents symbol seq trades) :
    ∃ trade ∈ trades, ∃ number, event =
      .tradeEvent number symbol trade.takerId trade.makerId trade.price trade.quantity := by
  induction trades generalizing seq with
  | nil => cases member
  | cons trade trades ih =>
    rw [tradeEvents] at member
    rcases mem_cons.mp member with rfl | later
    · exact ⟨trade, mem_cons_self, _, rfl⟩
    · obtain ⟨other, inside, same⟩ := ih later
      exact ⟨other, mem_cons_of_mem _ inside, same⟩

/-- The events carry the numbers that follow `seq`, one each. -/
def Numbered (seq : SeqNo) (events : List EngineEvent) : Prop :=
  events.map EngineEvent.seqOf = List.range' (seq + 1) events.length

instance (seq : SeqNo) (events : List EngineEvent) : Decidable (Numbered seq events) :=
  inferInstanceAs (Decidable (_ = _))

theorem Numbered.append {seq : SeqNo} {first second : List EngineEvent}
    (before : Numbered seq first) (after : Numbered (seq + first.length) second) :
    Numbered seq (first ++ second) := by
  unfold Numbered at *
  rw [map_append, before, after, length_append, ← range'_append_1,
    Nat.add_right_comm]

/-- What a step emits, numbered on from the engine's count. -/
structure Emits (before after : MatchingEngine) (events : List EngineEvent) : Prop where
  numbered : Numbered before.seq events
  counted : after.seq = before.seq + events.length

theorem emits_nothing {before after : MatchingEngine} (same : after.seq = before.seq) :
    Emits before after [] :=
  ⟨rfl, same⟩

theorem emits_commit (engine : MatchingEngine) (symbol : SymbolId) (book : OrderBook) (op : BookOp)
    (trades : List Trade) :
    Emits engine (engine.commit symbol book (op.opening symbol) trades).1
      (engine.commit symbol book (op.opening symbol) trades).2 := by
  constructor
  · show List.map _ (_ :: _) = List.range' _ (List.length (_ :: _))
    rw [map_cons, tradeEvents_seqOf, opening_seqOf, length_cons, tradeEvents_length,
      range'_succ]
  · show engine.seq + 1 + trades.length = _ + List.length (_ :: _)
    rw [length_cons, tradeEvents_length]
    exact Nat.add_right_comm engine.seq 1 trades.length

/-- Every mutator, on every engine: no events and no change, or numbered events. -/
theorem emits_call (engine : MatchingEngine) (symbol : SymbolId) (op : BookOp) :
    Emits engine (engine.call symbol op).1 (engine.call symbol op).2 ∧
      ((engine.call symbol op).2 = [] → (engine.call symbol op).1 = engine) := by
  rcases engine.call_cases symbol op with idle | ⟨book, _, _, done⟩
  · rw [idle]
    exact ⟨emits_nothing rfl, fun _ => rfl⟩
  · rw [done]
    refine ⟨emits_commit .., ?_⟩
    intro nothing
    cases nothing

theorem emits_apply (engine : MatchingEngine) (command : Command) :
    Emits engine (engine.apply command).1 (engine.apply command).2 := by
  rcases engine.apply_target command with ⟨name, _, applied⟩ | ⟨symbol, op, _, applied⟩
  · rw [applied]
    exact emits_nothing rfl
  · rw [applied]
    exact (emits_call engine symbol op).1

theorem emits_applyCommand (valid : engine.Valid) (config : RiskConfig) (command : Command) :
    Emits engine (applyCommand config engine command).1
      (applyCommand config engine command).2.events := by
  rw [applyCommand_eq config valid, dispatch]
  split
  · exact emits_nothing rfl
  · split
    · exact emits_nothing rfl
    · exact emits_apply engine command

/-- Steps that number their events on leave a run's events numbered on. -/
theorem emits_run {ο : Type} (step : MatchingEngine → Command → MatchingEngine × ο)
    (emitted : ο → List EngineEvent) (holds : MatchingEngine → Prop)
    (kept : ∀ engine command, holds engine → holds (step engine command).1 ∧
      Emits engine (step engine command).1 (emitted (step engine command).2))
    (start : holds engine) (commands : List Command) :
    Emits engine (Machine.run step engine commands).1
      ((Machine.run step engine commands).2.flatMap emitted) := by
  induction commands generalizing engine with
  | nil => exact emits_nothing rfl
  | cons command commands ih =>
    obtain ⟨next, first⟩ := kept engine command start
    have rest := ih next
    rw [Machine.run_cons, flatMap_cons]
    constructor
    · apply first.numbered.append
      rw [← first.counted]
      exact rest.numbered
    · rw [rest.counted, first.counted, length_append, Nat.add_assoc]

theorem emits_exchange (storage : Storage) (config : RiskConfig) (commands : List Command) :
    let run := Machine.run (applyCommand config) (MatchingEngine.new storage) commands
    Emits (MatchingEngine.new storage) run.1 (run.2.flatMap GatewayResult.events) :=
  emits_run (applyCommand config) GatewayResult.events (MatchingEngine.Sound storage)
    (fun _ command sound => ⟨(sound.applyCommand config command).1,
      emits_applyCommand sound.valid config command⟩)
    (MatchingEngine.sound_new storage) commands

/-- An accepted call on a book opens with its own event; trades of its order follow. -/
theorem applyCommand_opens {storage : Storage} (sound : engine.Sound storage)
    (config : RiskConfig) {command : Command} {symbol : SymbolId} {op : BookOp}
    (targets : command.target = some (symbol, op))
    (accepted : (applyCommand config engine command).2.accepted = true) :
    ∃ rest, (applyCommand config engine command).2.events =
        op.opening symbol (engine.seq + 1) :: rest ∧
      ∀ event ∈ rest, ∃ seq maker price quantity,
        event = .tradeEvent seq symbol op.id maker price quantity := by
  have same := (sound.applyCommand config command).2
  rcases engine.view.exchange_cases storage config command with
    ⟨reason, _, rejected⟩ | ⟨allowed, _, applied⟩
  · rw [rejected] at same
    rw [← congrArg Prod.snd same] at accepted
    cases accepted
  · obtain ⟨book, known, admitted⟩ := Market.verdict_known targets allowed
    have wellFormed := sound.valid.wellFormed symbol book known
    rw [applied, Market.apply_eq_call targets, Market.call_admitted known admitted] at same
    rw [← congrArg Prod.snd same]
    refine ⟨_, rfl, ?_⟩
    intro event member
    obtain ⟨trade, among, number, rfl⟩ := mem_tradeEvents member
    obtain ⟨own, _⟩ := wellFormed.apply_trades admitted trade among
    exact ⟨number, trade.makerId, trade.price, trade.quantity, by rw [own]⟩

/-- The gateway's verdicts and the engine's effects agree. A rejected command leaves the engine
as it was, an accepted one opens its events under the next sequence number. On any engine a call
without events changes nothing, and events are numbered without gap over every run. -/
theorem verdicts_agree :
    (∀ (storage : Storage) (config : RiskConfig) (commands : List Command) (command : Command),
      let engine := (Machine.run (applyCommand config) (MatchingEngine.new storage) commands).1
      let result := (applyCommand config engine command).2
      (result.accepted = false →
        (applyCommand config engine command).1 = engine ∧ result.events = []) ∧
      (result.accepted = true → ∀ symbol op, command.target = some (symbol, op) →
        ∃ rest, result.events = op.opening symbol (engine.seq + 1) :: rest ∧
          ∀ event ∈ rest, ∃ seq maker price quantity,
            event = .tradeEvent seq symbol op.id maker price quantity)) ∧
    (∀ (engine : MatchingEngine) (symbol : SymbolId) (op : BookOp),
      ((engine.call symbol op).2 = [] → (engine.call symbol op).1 = engine) ∧
        Numbered engine.seq (engine.call symbol op).2 ∧
        (engine.call symbol op).1.seq = engine.seq + (engine.call symbol op).2.length) ∧
    (∀ (storage : Storage) (commands : List Command),
      let run := Machine.run MatchingEngine.apply (MatchingEngine.new storage) commands
      Numbered 0 run.2.flatten ∧ run.1.seq = run.2.flatten.length) ∧
    (∀ (storage : Storage) (config : RiskConfig) (commands : List Command),
      let run := Machine.run (applyCommand config) (MatchingEngine.new storage) commands
      Numbered 0 (run.2.flatMap GatewayResult.events) ∧
        run.1.seq = (run.2.flatMap GatewayResult.events).length) := by
  refine ⟨?_, ?_, ?_, ?_⟩
  · intro storage config commands command
    have sound := (MatchingEngine.exchange_run storage config commands).1
    refine ⟨?_, fun accepted symbol op targets => applyCommand_opens sound config targets accepted⟩
    intro refused
    rcases applyCommand_cases config sound.valid command with
      ⟨reason, rejected⟩ | ⟨after, events, applied, _⟩
    · rw [rejected]
      exact ⟨rfl, rfl⟩
    · rw [applied] at refused
      cases refused
  · intro engine symbol op
    obtain ⟨emits, idle⟩ := emits_call engine symbol op
    exact ⟨idle, emits.numbered, emits.counted⟩
  · intro storage commands
    have emits : Emits (MatchingEngine.new storage) _ _ :=
      emits_run MatchingEngine.apply id (fun _ => True)
        (fun engine command _ => ⟨trivial, emits_apply engine command⟩) trivial commands
    rw [flatMap_id] at emits
    exact ⟨emits.numbered, emits.counted.trans (Nat.zero_add _)⟩
  · intro storage config commands
    have emits := emits_exchange storage config commands
    exact ⟨emits.numbered, emits.counted.trans (Nat.zero_add _)⟩

/-- A buy that meets a resting sell is acknowledged by the event that opens its trades. -/
theorem verdicts_agree_trade :
    let config : RiskConfig := ⟨100, 1000⟩
    let engine := (Machine.run (applyCommand config) (MatchingEngine.new .baseline)
      [.registerSymbol [65], .newLimit 0 1 .sell 10 5 .gtc]).1
    let result := (applyCommand config engine (.newLimit 0 2 .buy 10 3 .gtc)).2
    result.accepted = true ∧
      ∃ rest, result.events = .orderAccepted (engine.seq + 1) 0 2 :: rest ∧
        ∀ event ∈ rest, ∃ seq maker price quantity,
          event = .tradeEvent seq 0 2 maker price quantity :=
  ⟨by decide +kernel, (verdicts_agree.1 .baseline ⟨100, 1000⟩
    [.registerSymbol [65], .newLimit 0 1 .sell 10 5 .gtc] (.newLimit 0 2 .buy 10 3 .gtc)).2
    (by decide +kernel) 0 (.addLimit 2 .buy 10 3 .gtc) rfl⟩

end Qsl
