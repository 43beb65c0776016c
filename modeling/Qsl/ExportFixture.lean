import Qsl.EventStream
import Qsl.LogInvariant

namespace Qsl

open List
open LogVerifier (Record Fixture)

/-- The line an event is exported as. -/
def emitEvent : EngineEvent → LogVerifier.Event
  | .orderAccepted seq symbol id => .lifecycle .accept seq symbol.toNat id.toNat
  | .orderCanceled seq symbol id => .lifecycle .cancel seq symbol.toNat id.toNat
  | .orderModified seq symbol id => .lifecycle .modify seq symbol.toNat id.toNat
  | .tradeEvent seq symbol taker maker price quantity =>
    .trade seq symbol.toNat taker.toNat maker.toNat price.toInt quantity.toNat

def emitEvents (events : List EngineEvent) : List Record :=
  events.map (fun event => .ev (emitEvent event))

/-- The engine behind the exporter, the lines written and the trades counted. -/
structure FixtureWriter where
  engine : MatchingEngine
  lines : List Record
  trades : Nat

namespace FixtureWriter

def record (writer : FixtureWriter) (id : OrderId) (isNewOrder : Bool) (r : GatewayResult) :
    FixtureWriter :=
  let rejected := if isNewOrder && !r.accepted then [Record.rej id.toNat] else []
  { writer with
    lines := writer.lines ++ rejected ++ emitEvents r.events
    trades := writer.trades + r.events.countP EngineEvent.isTrade }

/-- The body of the loop over the flow; a registration produces no line. -/
def step (config : RiskConfig) (writer : FixtureWriter) (command : Command) : FixtureWriter :=
  let (engine, r) := applyCommand config writer.engine command
  let writer := { writer with engine := engine }
  match command with
  | .newLimit _ id _ _ _ _ => writer.record id true r
  | .newMarket _ id _ _ => writer.record id true r
  | .cancel _ id => writer.record id false r
  | .modify _ id _ _ => writer.record id false r
  | .registerSymbol _ => writer

end FixtureWriter

def exportFixture (storage : Storage) (config : RiskConfig) (commands : List Command) : Fixture :=
  let writer := commands.foldl (FixtureWriter.step config) ⟨.new storage, [], 0⟩
  ⟨writer.lines, writer.engine.snapshot.lastSeq, writer.trades⟩

/-- The events a run of commands emits. -/
def emitted (results : List GatewayResult) : List EngineEvent :=
  results.flatMap GatewayResult.events

theorem emitted_cons (result : GatewayResult) (results : List GatewayResult) :
    emitted (result :: results) = result.events ++ emitted results := rfl

theorem emitEvents_event? (events : List EngineEvent) :
    (emitEvents events).filterMap Record.event? = events.map emitEvent := by
  rw [emitEvents, filterMap_map, ← filterMap_eq_map]
  rfl

theorem emitEvent_isTrade (event : EngineEvent) : (emitEvent event).isTrade = event.isTrade := by
  cases event <;> rfl

theorem emitEvent_seq (event : EngineEvent) : (emitEvent event).seq = event.seqOf := by
  cases event <;> rfl

namespace FixtureWriter

/-- One command: its events are written and its trades counted, whatever else is. -/
theorem step_writes (config : RiskConfig) (writer : FixtureWriter) (command : Command) :
    let applied := applyCommand config writer.engine command
    let next := writer.step config command
    next.engine = applied.1 ∧
      next.lines.filterMap Record.event? =
        writer.lines.filterMap Record.event? ++ applied.2.events.map emitEvent ∧
      next.trades = writer.trades + applied.2.events.countP EngineEvent.isTrade := by
  have written : ∀ (writer : FixtureWriter) (id : OrderId) (isNewOrder : Bool) (r : GatewayResult),
      (writer.record id isNewOrder r).lines.filterMap Record.event? =
        writer.lines.filterMap Record.event? ++ r.events.map emitEvent := by
    intro writer id isNewOrder r
    simp only [record, filterMap_append, emitEvents_event?]
    split <;> simp [Record.event?]
  cases command with
  | registerSymbol name => exact ⟨rfl, (append_nil _).symm, rfl⟩
  | _ => exact ⟨rfl, written .., rfl⟩

theorem run_writes (config : RiskConfig) (writer : FixtureWriter) (commands : List Command) :
    let run := Machine.run (applyCommand config) writer.engine commands
    let final := commands.foldl (step config) writer
    final.engine = run.1 ∧
      final.lines.filterMap Record.event? =
        writer.lines.filterMap Record.event? ++ (emitted run.2).map emitEvent ∧
      final.trades = writer.trades + (emitted run.2).countP EngineEvent.isTrade := by
  induction commands generalizing writer with
  | nil => exact ⟨rfl, (append_nil _).symm, rfl⟩
  | cons command commands ih =>
    obtain ⟨engine, lines, trades⟩ := step_writes config writer command
    obtain ⟨final, all, count⟩ := ih (writer.step config command)
    rw [engine] at final all count
    refine ⟨final, ?_, ?_⟩
    · rw [foldl_cons, all, lines, Machine.run_cons, emitted_cons, map_append,
        append_assoc]
    · rw [foldl_cons, count, trades, Machine.run_cons, emitted_cons, countP_append,
        Nat.add_assoc]

end FixtureWriter

/-- What the exported fixture holds of a run. -/
theorem exportFixture_eq (storage : Storage) (config : RiskConfig) (commands : List Command) :
    let run := Machine.run (applyCommand config) (MatchingEngine.new storage) commands
    let fixture := exportFixture storage config commands
    LogVerifier.eventsOf fixture = (emitted run.2).map emitEvent ∧
      fixture.lastSeq = (run.1.seq : Int) ∧
      fixture.trades = ((emitted run.2).countP EngineEvent.isTrade : Int) := by
  obtain ⟨engine, lines, trades⟩ :=
    FixtureWriter.run_writes config ⟨.new storage, [], 0⟩ commands
  refine ⟨lines, ?_, ?_⟩
  · exact congrArg (fun engine => (engine.seq : Int)) engine
  · rw [Nat.zero_add] at trades
    exact congrArg Int.ofNat trades

/-- The event acts on an order of that id. -/
def EngineEvent.acts (id : OrderId) : EngineEvent → Prop
  | .orderAccepted .. => False
  | .orderModified _ _ order => order = id
  | .orderCanceled _ _ order => order = id
  | .tradeEvent _ _ taker maker _ _ => taker = id ∨ maker = id

/-- The id rests on the symbol. -/
def Market.rests (market : Market) (symbol : SymbolId) (id : OrderId) : Prop :=
  ∃ book, market.books.find? symbol = some book ∧ book.contains id = true

/-- A standing of ids in the events so far: an acceptance gives it, and only a cancel of the id
can take it away. -/
structure Standing (good : List EngineEvent → OrderId → Prop) : Prop where
  accepted : ∀ past seq symbol id, good (past ++ [.orderAccepted seq symbol id]) id
  kept : ∀ past event id, (∀ seq symbol, event ≠ .orderCanceled seq symbol id) →
    good past id → good (past ++ [event]) id

/-- Every event acts on ids in good standing. -/
def Supported (good : List EngineEvent → OrderId → Prop) : List EngineEvent → List EngineEvent → Prop
  | _, [] => True
  | past, event :: events =>
    (∀ id, event.acts id → good past id) ∧ Supported good (past ++ [event]) events

section Standing

variable {good : List EngineEvent → OrderId → Prop}

theorem supported_append {past first second : List EngineEvent} :
    Supported good past (first ++ second) ↔
      Supported good past first ∧ Supported good (past ++ first) second := by
  induction first generalizing past with
  | nil => simp [Supported]
  | cons event events ih =>
    rw [cons_append, Supported, Supported, ih, and_assoc, append_assoc,
      singleton_append]

theorem Supported.split {past events : List EngineEvent} (supported : Supported good past events)
    {before after : List EngineEvent} {event : EngineEvent}
    (split : events = before ++ event :: after) {id : OrderId} (acts : event.acts id) :
    good (past ++ before) id := by
  rw [split, supported_append] at supported
  exact supported.2.1 id acts

section

variable (standing : Standing good) {past : List EngineEvent}

include standing

theorem Standing.kept_trade {id : OrderId} (held : good past id) (seq : SeqNo) (symbol : SymbolId)
    (taker maker : OrderId) (price : Price) (quantity : Quantity) :
    good (past ++ [.tradeEvent seq symbol taker maker price quantity]) id := by
  refine standing.kept past _ id ?_ held
  intro number named same
  cases same

/-- Trades cost no one the standing. -/
theorem Standing.trades {id : OrderId} (held : good past id) (symbol : SymbolId) (seq : SeqNo)
    (trades : List Trade) : good (past ++ tradeEvents symbol seq trades) id := by
  induction trades generalizing past seq with
  | nil =>
    rw [tradeEvents, append_nil]
    exact held
  | cons trade trades ih =>
    have next := ih (standing.kept_trade held (seq + 1) symbol trade.takerId trade.makerId
      trade.price trade.quantity) (seq + 1)
    rw [append_assoc] at next
    exact next

/-- Trades between ids in good standing are supported. -/
theorem Standing.supported_trades (symbol : SymbolId) (seq : SeqNo) {trades : List Trade}
    (held : ∀ trade ∈ trades, good past trade.takerId ∧ good past trade.makerId) :
    Supported good past (tradeEvents symbol seq trades) := by
  induction trades generalizing past seq with
  | nil => trivial
  | cons trade trades ih =>
    obtain ⟨taker, maker⟩ := held trade mem_cons_self
    refine ⟨?_, ih (seq + 1) ?_⟩
    · rintro id (rfl | rfl)
      · exact taker
      · exact maker
    · intro other member
      obtain ⟨takes, makes⟩ := held other (mem_cons_of_mem _ member)
      exact ⟨standing.kept_trade takes _ _ _ _ _ _, standing.kept_trade makes _ _ _ _ _ _⟩

end

variable {market : Market} {symbol : SymbolId} {book : Book} {op : BookOp}

/-- The opening event leaves the order of a call that submits one in good standing. -/
theorem Standing.opened (standing : Standing good) {past : List EngineEvent}
    (resting : book.contains op.id = true → good past op.id) (admitted : book.admits op = true)
    (submits : ∀ id, op ≠ .cancel id) (symbol : SymbolId) (seq : SeqNo) :
    good (past ++ [op.opening symbol seq]) op.id := by
  cases op with
  | addLimit id side price quantity tif => exact standing.accepted past seq symbol id
  | addMarket id side quantity => exact standing.accepted past seq symbol id
  | cancel id => exact absurd rfl (submits id)
  | modify id newPrice newQuantity =>
    exact standing.kept _ _ _ (fun _ _ => nofun) (resting admitted)

/-- The opening event does not touch the other ids. -/
theorem Standing.opening_kept (standing : Standing good) {past : List EngineEvent} {id : OrderId}
    (other : op = .cancel op.id → id ≠ op.id) (held : good past id) (symbol : SymbolId)
    (seq : SeqNo) : good (past ++ [op.opening symbol seq]) id := by
  refine standing.kept past _ id ?_ held
  intro number named same
  cases op with
  | cancel order =>
    cases same
    exact other rfl rfl
  | _ => cases same

/-- An admitted call on one book: its events act on ids in good standing, and its book still
holds none but such. -/
theorem Standing.call (standing : Standing good) (valid : book.WellFormed)
    {past : List EngineEvent} (resting : ∀ id, book.contains id = true → good past id)
    (admitted : book.admits op = true) (symbol : SymbolId) (seq : SeqNo) :
    let events := op.opening symbol seq :: tradeEvents symbol seq (book.apply op).2.trades
    Supported good past events ∧
      ∀ id, (book.apply op).1.contains id = true → good (past ++ events) id := by
  have sources := valid.apply_source admitted
  have matched := valid.apply_trades admitted
  have rested : ∀ order ∈ book.restingOrders, good past order.id := fun order member =>
    resting order.id (Book.contains_iff.mpr (mem_map_of_mem member))
  have elsewhere : ∀ id, id ≠ op.id → good past id → good (past ++ [op.opening symbol seq]) id :=
    fun id other held => standing.opening_kept (fun _ => other) held symbol seq
  refine ⟨⟨?_, ?_⟩, ?_⟩
  · intro id acts
    cases op with
    | addLimit order side price quantity tif => cases acts
    | addMarket order side quantity => cases acts
    | _ =>
      cases acts
      exact resting _ admitted
  · apply standing.supported_trades
    intro trade member
    obtain ⟨own, other, _, maker, among, same, _⟩ := matched trade member
    constructor
    · rw [own]
      refine standing.opened (resting op.id) admitted ?_ symbol seq
      -- a cancel trades nothing
      rintro id rfl
      simp only [Book.apply, BookReply.trades] at member
      cases member
    · refine elsewhere _ other ?_
      rw [← same]
      exact rested maker among
  · intro id inside
    obtain ⟨order, member, rfl⟩ := mem_map.mp (Book.contains_iff.mp inside)
    rw [← singleton_append, ← append_assoc]
    apply standing.trades
    rcases sources order member with ⟨other, source, among, tags, _⟩ | ⟨own, priced, _⟩
    · have ids : source.id = order.id := congrArg (fun tag => tag.1) tags
      exact elsewhere _ other (ids ▸ rested source among)
    · rw [own]
      refine standing.opened (resting op.id) admitted ?_ symbol seq
      rintro id rfl
      cases priced

theorem target_cancel {command : Command} {id : OrderId}
    (targets : command.target = some (symbol, .cancel id)) : command = .cancel symbol id := by
  cases command <;> cases targets
  rfl

/-- A command through the gateway keeps every resting id in good standing, if its cancel leaves
those that rest on other symbols so. -/
theorem Standing.exchange (standing : Standing good) (storage : Storage) (config : RiskConfig)
    (valid : market.WellFormed) {past : List EngineEvent} (command : Command)
    (resting : ∀ symbol id, market.rests symbol id → good past id)
    (cancels : ∀ symbol id other, command = .cancel symbol id → market.rests symbol id →
      other ≠ symbol → market.rests other id →
      ∀ seq, good (past ++ [.orderCanceled seq symbol id]) id) :
    Supported good past (market.exchange storage config command).2.events ∧
      ∀ symbol id, (market.exchange storage config command).1.rests symbol id →
        good (past ++ (market.exchange storage config command).2.events) id := by
  rcases market.exchange_cases storage config command with
    ⟨reason, _, rejected⟩ | ⟨allowed, _, accepted⟩
  · rw [rejected]
    refine ⟨trivial, ?_⟩
    intro symbol id rests
    rw [GatewayResult.reject, append_nil]
    exact resting symbol id rests
  · rw [accepted]
    rcases market.apply_target command with ⟨name, _, applied⟩ | ⟨symbol, op, targets, _⟩
    · rw [applied]
      refine ⟨trivial, ?_⟩
      rintro symbol id ⟨book, found, inside⟩
      rw [GatewayResult.accept, append_nil]
      rcases market.registerSymbol_find? name symbol with same | ⟨_, fresh⟩
      · exact resting symbol id ⟨book, same.symm.trans found, inside⟩
      · cases fresh.symm.trans found
        cases inside
    · obtain ⟨book, known, admitted⟩ := Market.verdict_known targets allowed
      have rested : ∀ id, book.contains id = true → good past id :=
        fun id inside => resting symbol id ⟨book, known, inside⟩
      obtain ⟨supported, left⟩ :=
        standing.call (valid symbol book known) rested admitted symbol (market.seq + 1)
      rw [Market.apply_eq_call targets, Market.call_admitted known admitted]
      refine ⟨supported, ?_⟩
      rintro other id ⟨after, found, inside⟩
      simp only [OrderedMap.find?_insert] at found
      split at found
      · cases found
        exact left id inside
      · rename_i apart
        rw [GatewayResult.accept, ← singleton_append, ← append_assoc]
        apply standing.trades
        have held : market.rests other id := ⟨after, found, inside⟩
        by_cases taken : op = .cancel id
        · subst taken
          exact cancels symbol id other (target_cancel targets) ⟨book, known, admitted⟩ apart held _
        · refine standing.opening_kept ?_ (resting other id held) symbol _
          rintro cancel rfl
          exact taken cancel

theorem Market.WellFormed.exchange (valid : market.WellFormed) (storage : Storage)
    (config : RiskConfig) (command : Command) :
    (market.exchange storage config command).1.WellFormed := by
  rcases market.exchange_cases storage config command with ⟨reason, _, rejected⟩ | ⟨_, _, accepted⟩
  · rw [rejected]
    exact valid
  · rw [accepted]
    exact valid.apply command

/-- Over a whole run every event acts on ids in good standing. -/
theorem Standing.run (standing : Standing good) (storage : Storage) (config : RiskConfig)
    (valid : market.WellFormed) {past : List EngineEvent}
    (resting : ∀ symbol id, market.rests symbol id → good past id) (commands : List Command)
    (cancels : ∀ before symbol id after, commands = before ++ .cancel symbol id :: after →
      let run := Machine.run (Market.exchange storage config) market before
      run.1.rests symbol id → ∀ other, other ≠ symbol → run.1.rests other id →
        good (past ++ emitted run.2) id →
        ∀ seq, good (past ++ emitted run.2 ++ [.orderCanceled seq symbol id]) id) :
    Supported good past
      (emitted (Machine.run (Market.exchange storage config) market commands).2) := by
  induction commands generalizing market past with
  | nil => trivial
  | cons command commands ih =>
    obtain ⟨first, held⟩ := standing.exchange storage config valid command resting (by
      rintro symbol id other rfl rests apart elsewhere seq
      have kept := cancels [] symbol id commands rfl rests other apart elsewhere
      rw [Machine.run_nil, emitted, flatMap_nil, append_nil] at kept
      exact kept (resting other id elsewhere) seq)
    rw [Machine.run_cons, emitted_cons, supported_append]
    refine ⟨first, ih (valid.exchange storage config command) held ?_⟩
    rintro before symbol id after rfl
    have later := cancels (command :: before) symbol id after rfl
    simp only [Machine.run_cons, emitted_cons, ← append_assoc] at later
    exact later

end Standing

theorem MatchingEngine.Valid.rests_iff {engine : MatchingEngine} (valid : engine.Valid)
    (symbol : SymbolId) (id : OrderId) :
    engine.view.rests symbol id ↔ engine.contains symbol id = true := by
  simp only [Market.rests, contains, view_find?]
  cases found : engine.findBook symbol with
  | none => simp
  | some book => simp [(valid symbol book found).contains_eq]

section Log

variable {event : EngineEvent} {events : List EngineEvent} {id : OrderId}

theorem emitEvent_acts {number : Int} (acts : (emitEvent event).acts number) :
    ∃ id : OrderId, number = id.toNat ∧ event.acts id := by
  cases event with
  | orderAccepted seq symbol order => cases acts
  | orderCanceled seq symbol order => exact ⟨order, acts.symm, rfl⟩
  | orderModified seq symbol order => exact ⟨order, acts.symm, rfl⟩
  | tradeEvent seq symbol taker maker price quantity =>
    rcases acts with same | same
    · exact ⟨taker, same.symm, Or.inl rfl⟩
    · exact ⟨maker, same.symm, Or.inr rfl⟩

/-- What supports the engine's events supports the lines of the log. -/
theorem Supported.acting {found : List LogVerifier.Event → Int → Prop}
    (supported : Supported (fun past id => found (past.map emitEvent) id.toNat) [] events) :
    LogVerifier.Acting found (events.map emitEvent) := by
  intro before line after split number acts
  obtain ⟨first, second, rfl, rfl, rest⟩ := map_eq_append_iff.mp split
  obtain ⟨event, others, rfl, rfl, rfl⟩ := map_eq_cons_iff.mp rest
  obtain ⟨id, rfl, acted⟩ := emitEvent_acts acts
  exact supported.split rfl acted

theorem standing_accepted :
    Standing (fun past id => LogVerifier.accepted id.toNat (past.map emitEvent)) where
  accepted := by
    intro past seq symbol id
    rw [map_append]
    exact LogVerifier.accepted_snoc.mpr (Or.inr rfl)
  kept := by
    intro past event id _ held
    rw [map_append]
    exact LogVerifier.accepted_snoc.mpr (Or.inl held)

theorem standing_lapsed :
    Standing (fun past id => LogVerifier.lapsed id.toNat (past.map emitEvent) = false) where
  accepted := by
    intro past seq symbol id
    rw [map_append, map_singleton, LogVerifier.lapsed_snoc]
    exact if_pos rfl
  kept := by
    intro past event id other held
    rw [map_append, map_singleton, LogVerifier.lapsed_snoc, held]
    cases event with
    | orderAccepted seq symbol order => exact ite_self false
    | orderCanceled seq symbol order =>
      refine if_neg ?_
      intro same
      have ids : order = id := UInt64.toNat.inj (Int.ofNat.inj same)
      exact other seq symbol (congrArg _ ids)
    | _ => rfl

theorem numbered_cons {seq : SeqNo} :
    Numbered seq (event :: events) ↔ event.seqOf = seq + 1 ∧ Numbered (seq + 1) events := by
  rw [Numbered, map_cons, length_cons, range'_succ, List.cons.injEq]
  rfl

theorem Numbered.rising {seq : SeqNo} (numbered : Numbered seq events) :
    (LogVerifier.rising seq (events.map emitEvent)).1 = true := by
  induction events generalizing seq with
  | nil => rfl
  | cons event events ih =>
    obtain ⟨first, rest⟩ := numbered_cons.mp numbered
    have later : (seq : Int) < (seq + 1 : Nat) := Int.ofNat_lt.mpr (Nat.lt_succ_self seq)
    rw [map_cons, LogVerifier.rising, emitEvent_seq, first]
    simp only [later, if_true]
    exact ih rest

theorem Numbered.max_seq {seq : SeqNo} (numbered : Numbered seq events) :
    (events.map emitEvent).foldl (fun (m : Int) e => max m e.seq) seq =
      (seq + events.length : Nat) := by
  induction events generalizing seq with
  | nil => rfl
  | cons event events ih =>
    obtain ⟨first, rest⟩ := numbered_cons.mp numbered
    have later : max (seq : Int) (seq + 1 : Nat) = (seq + 1 : Nat) :=
      max_eq_right (Int.ofNat_le.mpr (Nat.le_succ seq))
    rw [map_cons, foldl_cons, emitEvent_seq, first, later, ih rest, length_cons,
      Nat.add_assoc, Nat.add_comm 1]

end Log

section Run

variable (storage : Storage) (config : RiskConfig) (commands : List Command)

/-- The run of the exchange behind the engine's. -/
theorem emitted_run :
    emitted (Machine.run (applyCommand config) (MatchingEngine.new storage) commands).2 =
      emitted (Machine.run (Market.exchange storage config) .empty commands).2 := by
  have runs := (MatchingEngine.exchange_run storage config commands).2
  exact congrArg (fun run => emitted run.2) runs.symm

/-- Every id that the log acts on was accepted in it before. -/
theorem export_introduced :
    LogVerifier.Introduced (LogVerifier.eventsOf (exportFixture storage config commands)) := by
  rw [(exportFixture_eq storage config commands).1, emitted_run]
  apply Supported.acting
  refine standing_accepted.run storage config Market.wellFormed_empty ?_ commands ?_
  · rintro symbol id ⟨book, found, _⟩
    cases found
  · intro before symbol id after _ run _ other _ _ held seq
    rw [map_append]
    exact LogVerifier.accepted_snoc.mpr (Or.inl held)

/-- Every trade of a command has a quantity. -/
theorem exchange_positive {market : Market} (valid : market.WellFormed) (command : Command) :
    ∀ event ∈ (market.exchange storage config command).2.events,
      (emitEvent event).nonPositive = false := by
  intro event member
  rcases market.exchange_cases storage config command with
    ⟨reason, _, rejected⟩ | ⟨allowed, _, accepted⟩
  · rw [rejected] at member
    cases member
  · rw [accepted] at member
    rcases market.apply_target command with ⟨name, _, applied⟩ | ⟨symbol, op, targets, _⟩
    · rw [applied] at member
      cases member
    · obtain ⟨book, known, admitted⟩ := Market.verdict_known targets allowed
      rw [Market.apply_eq_call targets, Market.call_admitted known admitted] at member
      rcases mem_cons.mp member with rfl | later
      · cases op <;> rfl
      · obtain ⟨trade, among, number, rfl⟩ := mem_tradeEvents later
        obtain ⟨_, _, positive, _⟩ := (valid symbol book known).apply_trades admitted trade among
        have some : 0 < trade.quantity.toNat := positive
        simp only [emitEvent, LogVerifier.Event.nonPositive, decide_eq_false_iff_not]
        omega

theorem export_positive :
    ∀ event ∈ LogVerifier.eventsOf (exportFixture storage config commands),
      event.nonPositive = false := by
  rw [(exportFixture_eq storage config commands).1, emitted_run]
  intro line member
  obtain ⟨event, inside, rfl⟩ := mem_map.mp member
  obtain ⟨result, answered, among⟩ := mem_flatMap.mp inside
  exact Machine.run_answers (Market.exchange storage config) Market.WellFormed
    (fun result => ∀ event ∈ result.events, (emitEvent event).nonPositive = false)
    (fun market command valid => ⟨valid.exchange storage config command,
      exchange_positive storage config valid command⟩)
    Market.wellFormed_empty commands result answered event among

/-- Whenever a cancel finds its order, the id rests on no other symbol. -/
def CancelsApart : Prop :=
  ∀ before symbol id after, commands = before ++ .cancel symbol id :: after →
    let engine := (Machine.run (applyCommand config) (MatchingEngine.new storage) before).1
    engine.contains symbol id = true → ∀ other, other ≠ symbol → engine.contains other id = false

theorem CancelsApart.reinstated (apart : CancelsApart storage config commands) :
    LogVerifier.Reinstated (LogVerifier.eventsOf (exportFixture storage config commands)) := by
  rw [(exportFixture_eq storage config commands).1, emitted_run]
  apply Supported.acting
  refine standing_lapsed.run storage config Market.wellFormed_empty ?_ commands ?_
  · rintro symbol id ⟨book, found, _⟩
    cases found
  · intro before symbol id after split run rests other differs elsewhere
    obtain ⟨sound, runs⟩ := MatchingEngine.exchange_run storage config before
    have reached := congrArg Prod.fst runs
    rw [show run.1 = _ from reached, sound.valid.rests_iff] at rests elsewhere
    rw [apart before symbol id after split rests other differs] at elsewhere
    cases elsewhere

/-- The verifier accepts the log of every run in which no id is canceled on one symbol while it
rests on another. -/
theorem export_accepted (apart : CancelsApart storage config commands) :
    LogVerifier.allOk (LogVerifier.run (exportFixture storage config commands)) = true := by
  obtain ⟨events, lastSeq, trades⟩ := exportFixture_eq storage config commands
  have emits := emits_exchange storage config commands
  rw [LogVerifier.allOk_iff, LogVerifier.lifetimeChecks_ok]
  refine ⟨?_, LogVerifier.positiveQty_ok.mpr (export_positive storage config commands),
    LogVerifier.quiet_of_reinstated (export_introduced storage config commands) apart.reinstated, ?_⟩
  · rw [LogVerifier.monotonicSeq, events]
    exact emits.numbered.rising
  · rw [LogVerifier.summaryConsistent_ok, events, lastSeq, trades, emits.counted, countP_map]
    refine ⟨emits.numbered.max_seq, ?_⟩
    congr 2
    funext event
    exact emitEvent_isTrade event

end Run

theorem MatchingEngine.contains_unlisted {engine : MatchingEngine} {symbol : SymbolId}
    (unlisted : symbol ∉ engine.books.keys) (id : OrderId) : engine.contains symbol id = false := by
  rw [contains, findBook, OrderedMap.find?_eq_none.mpr unlisted]
  rfl

/-- An id moves to another symbol: it is canceled where it rests before it is used again. -/
theorem export_accepted_reused :
    LogVerifier.allOk (LogVerifier.run (exportFixture .baseline ⟨100, 100000⟩
      [.registerSymbol [65], .registerSymbol [66], .newLimit 0 1 .buy 10 5 .gtc, .cancel 0 1,
        .newLimit 1 1 .buy 10 5 .gtc, .cancel 1 1])) = true := by
  refine export_accepted _ _ _ ?_
  intro before symbol id after split engine rests other differs
  -- the other of the two symbols does not have the id
  obtain ⟨keys, among, free⟩ : engine.books.keys = [0, 1] ∧ symbol ∈ [0, 1] ∧
      engine.contains (1 - symbol) id = false := by
    rcases before with _ | ⟨_, _ | ⟨_, _ | ⟨_, _ | ⟨_, _ | ⟨_, _ | ⟨_, before⟩⟩⟩⟩⟩⟩ <;>
      simp only [nil_append, cons_append, List.cons.injEq, Command.cancel.injEq,
        reduceCtorEq, false_and, and_false] at split
    · obtain ⟨rfl, rfl, rfl, ⟨rfl, rfl⟩, rfl⟩ := split
      decide +kernel
    · obtain ⟨rfl, rfl, rfl, rfl, rfl, ⟨rfl, rfl⟩, rfl⟩ := split
      decide +kernel
    · simp at split
  by_cases listed : other ∈ [0, 1]
  · have opposite : other = 1 - symbol := by
      simp only [mem_cons, not_mem_nil, or_false] at among listed
      rcases among with rfl | rfl
      · exact listed.resolve_left differs
      · exact listed.resolve_right differs
    rw [opposite, free]
  · exact MatchingEngine.contains_unlisted (keys ▸ listed) id

/-- One id rests on two symbols. Canceled on both, it is taken for a canceled order that acts. -/
theorem export_flags_shared_id :
    let fixture := exportFixture .baseline ⟨100, 100000⟩
      [.registerSymbol [65], .registerSymbol [66], .newLimit 0 1 .buy 10 5 .gtc,
        .newLimit 1 1 .buy 10 5 .gtc, .cancel 0 1, .cancel 1 1]
    LogVerifier.allOk (LogVerifier.run fixture) = false ∧
      (LogVerifier.lifetimeChecks fixture).1 = ("canceled order cannot later trade", false,
        "canceled order 1 acted at seq 4") := by
  decide +kernel

end Qsl
