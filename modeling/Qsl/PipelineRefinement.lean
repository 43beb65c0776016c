import Qsl.ThreadedPipeline

namespace Qsl

open List

/-- The counters of a result count these records. -/
structure PipelineResult.Counts (result : PipelineResult) (records : List ProcessedCommand) :
    Prop where
  processed : result.commandsProcessed = records.length
  accepted : result.commandsAccepted = records.countP ProcessedCommand.accepted
  rejected : result.commandsRejected = records.countP (fun record => !record.accepted)
  emitted : result.eventsEmitted = (records.map (fun record => record.events.length)).sum

theorem PipelineResult.Counts.count {result : PipelineResult} {records : List ProcessedCommand}
    (counts : result.Counts records) (processed : ProcessedCommand) :
    (result.count processed).Counts (records ++ [processed]) where
  processed := by simp [PipelineResult.count, counts.processed]
  accepted := by
    cases taken : processed.accepted <;>
      simp [PipelineResult.count, counts.accepted, taken]
  rejected := by
    cases taken : processed.accepted <;>
      simp [PipelineResult.count, counts.rejected, taken]
  emitted := by simp [PipelineResult.count, counts.emitted]

/-- Every command is accepted or rejected. -/
theorem PipelineResult.Counts.either {result : PipelineResult} {records : List ProcessedCommand}
    (counts : result.Counts records) :
    result.commandsAccepted + result.commandsRejected = result.commandsProcessed := by
  rw [counts.accepted, counts.rejected, counts.processed,
    length_eq_countP_add_countP ProcessedCommand.accepted]
  simp

namespace ThreadedPipeline

variable {inboundCapacity outboundCapacity : Nat} {config : RiskConfig}

/-- The commands that the input thread still has to push. -/
def InputPhase.commands : InputPhase → List Command
  | .pushing commands => commands
  | .exited => []

/-- The record that the engine thread has still to push. -/
def EnginePhase.pending : EnginePhase → Option ProcessedCommand
  | .publishing processed _ => some processed
  | _ => none

/-- The engine thread has seen `input_done`. -/
def EnginePhase.sawDone : EnginePhase → Bool
  | .draining => true
  | .publishing _ inputDone => inputDone
  | .finishing => true
  | .exited => true
  | _ => false

/-- The engine thread has found the ring empty after that. -/
def EnginePhase.drained : EnginePhase → Bool
  | .finishing => true
  | .exited => true
  | _ => false

/-- The output thread has seen `engine_done`. -/
def OutputPhase.sawDone : OutputPhase → Bool
  | .draining => true
  | .exited => true
  | _ => false

def OutputPhase.drained : OutputPhase → Bool
  | .exited => true
  | _ => false

namespace RunContext

/-- The threads as a relay of queues. -/
def relay (ctx : RunContext inboundCapacity outboundCapacity) :
    Relay MatchingEngine Command ProcessedCommand where
  source := ctx.input.commands
  sourceDone := ctx.inputDone
  inbound := ctx.inbound.contents
  state := ctx.engine
  hand := ctx.enginePhase.pending
  workDone := ctx.enginePhase.drained
  outbound := ctx.outbound.contents
  delivered := ctx.sink
  ended := ctx.output.drained

end RunContext

/-- A thread is past a flag only if the flag is set, and the engine thread leaves with the
result filled in. -/
structure Orderly (ctx : RunContext inboundCapacity outboundCapacity) : Prop where
  inputSeen : ctx.enginePhase.sawDone = true → ctx.inputDone = true
  engineDone : ctx.engineDone = true → ctx.enginePhase = .exited
  engineSeen : ctx.output.sawDone = true → ctx.engineDone = true
  reported : ctx.enginePhase = .exited →
    ctx.result.snapshot = ctx.engine.snapshot ∧ ctx.result.lastSeq = ctx.engine.seq
  counts : ctx.result.Counts ctx.relay.made

variable {ctx next : RunContext inboundCapacity outboundCapacity}

/-- What a step of a thread has to be: a step of the relay, or none that it could notice. -/
def Refines (config : RiskConfig) (ctx next : RunContext inboundCapacity outboundCapacity) :
    Prop :=
  Relay.Step (processCommand config) ctx.relay next.relay ∨ next.relay = ctx.relay

/-- The engine thread goes on to another phase and touches nothing else. -/
theorem Orderly.goOn (orderly : Orderly ctx) (running : ctx.enginePhase ≠ .exited)
    {phase : EnginePhase} (stays : phase ≠ .exited)
    (same : phase.pending = ctx.enginePhase.pending)
    (seen : phase.sawDone = true → ctx.inputDone = true) :
    Orderly { ctx with enginePhase := phase } where
  inputSeen := seen
  engineDone := fun flag => absurd (orderly.engineDone flag) running
  engineSeen := orderly.engineSeen
  reported := fun gone => absurd gone stays
  counts := by
    have counts := orderly.counts
    simp only [Relay.made, RunContext.relay] at counts ⊢
    rw [same]
    exact counts

theorem inputStep_refines (orderly : Orderly ctx) (taken : inputStep ctx = some next) :
    Orderly next ∧ Refines config ctx next := by
  obtain ⟨seen, done, past, reported, counts⟩ := orderly
  obtain ⟨input, inbound, inputDone, enginePhase, engine, outbound, engineDone, output, sink,
    result⟩ := ctx
  rcases input with ⟨_ | ⟨command, commands⟩⟩ | _
  · cases taken
    exact ⟨⟨fun _ => rfl, done, past, reported, counts⟩, Or.inl (.close rfl)⟩
  · rcases inbound.tryPush_cases command with ⟨_, refused⟩ | ⟨after, pushed, contents⟩
    · simp only [inputStep, refused, Bool.false_eq_true, if_false, Option.some.injEq] at taken
      subst taken
      exact ⟨⟨seen, done, past, reported, ⟨counts.1, counts.2, counts.3, counts.4⟩⟩, Or.inr rfl⟩
    · simp only [inputStep, pushed, if_true, Option.some.injEq] at taken
      subst taken
      refine ⟨⟨seen, done, past, reported, counts⟩, Or.inl ?_⟩
      simp only [RunContext.relay, contents]
      exact .send rfl
  · cases taken

/-- The two outcomes of a pop by the engine thread. -/
theorem popInbound_cases (config : RiskConfig) (ctx : RunContext inboundCapacity outboundCapacity)
    (inputDone : Bool) (otherwise : EnginePhase) :
    (ctx.inbound.contents = [] ∧
        popInbound config ctx inputDone otherwise = { ctx with enginePhase := otherwise }) ∨
      ∃ inbound command, ctx.inbound.contents = command :: inbound.contents ∧
        popInbound config ctx inputDone otherwise =
          { ctx with
            inbound := inbound
            engine := (processCommand config ctx.engine command).1
            result := ctx.result.count (processCommand config ctx.engine command).2
            enginePhase := .publishing (processCommand config ctx.engine command).2 inputDone } := by
  unfold popInbound
  rcases ctx.inbound.tryPop_cases with ⟨empty, popped⟩ | ⟨inbound, command, popped, contents⟩
  · exact Or.inl ⟨empty, by rw [popped]⟩
  · refine Or.inr ⟨inbound, command, contents, ?_⟩
    rw [popped]
    rfl

/-- A command that was popped is taken by the relay's worker. -/
theorem popInbound_refines (config : RiskConfig) (orderly : Orderly ctx)
    (free : ctx.enginePhase.pending = none) (running : ctx.enginePhase.drained = false)
    (inputDone : Bool) (seen : inputDone = true → ctx.inputDone = true)
    {inbound : SpscRing Command inboundCapacity} {command : Command}
    (contents : ctx.inbound.contents = command :: inbound.contents) :
    let next : RunContext inboundCapacity outboundCapacity := { ctx with
      inbound := inbound
      engine := (processCommand config ctx.engine command).1
      result := ctx.result.count (processCommand config ctx.engine command).2
      enginePhase := .publishing (processCommand config ctx.engine command).2 inputDone }
    Orderly next ∧ Refines config ctx next := by
  have made : ctx.relay.made = ctx.sink ++ ctx.outbound.contents := by
    simp only [Relay.made, RunContext.relay, free, Option.toList_none, append_nil]
  have counts := orderly.counts.count (processCommand config ctx.engine command).2
  rw [made] at counts
  refine ⟨⟨seen, ?_, orderly.engineSeen, ?_, counts⟩, Or.inl ?_⟩
  · intro flag
    rw [orderly.engineDone flag] at running
    cases running
  · intro gone
    cases gone
  · have taken := @Relay.Step.take _ _ _ (processCommand config) ctx.relay _ _ contents free
    simp only [RunContext.relay, running] at taken ⊢
    exact taken

theorem engineStep_refines (orderly : Orderly ctx) (taken : engineStep config ctx = some next) :
    Orderly next ∧ Refines config ctx next := by
  obtain ⟨seen, done, past, reported, counts⟩ := id orderly
  obtain ⟨input, inbound, inputDone, phase, engine, outbound, engineDone, output, sink,
    result⟩ := ctx
  cases phase with
  | polling =>
    simp only [engineStep, Option.some.injEq] at taken
    subst taken
    rcases popInbound_cases config ⟨input, inbound, inputDone, .polling, engine, outbound,
        engineDone, output, sink, result⟩ false .checking with
      ⟨_, popped⟩ | ⟨after, command, contents, popped⟩
    · rw [popped]
      exact ⟨orderly.goOn (by simp) (by simp) rfl (fun saw => absurd saw Bool.false_ne_true),
        Or.inr rfl⟩
    · rw [popped]
      exact popInbound_refines config orderly rfl rfl false (fun saw => absurd saw Bool.false_ne_true)
        contents
  | checking =>
    cases flag : inputDone with
    | true =>
      simp only [engineStep, flag, if_true, Option.some.injEq] at taken
      subst flag taken
      exact ⟨orderly.goOn (by simp) (by simp) rfl (fun _ => rfl), Or.inr rfl⟩
    | false =>
      simp only [engineStep, flag, Bool.false_eq_true, if_false, Option.some.injEq] at taken
      subst flag taken
      exact ⟨orderly.goOn (by simp) (by simp) rfl (fun saw => absurd saw Bool.false_ne_true),
        Or.inr rfl⟩
  | draining =>
    have closed : inputDone = true := seen rfl
    simp only [engineStep, Option.some.injEq] at taken
    subst taken
    rcases popInbound_cases config ⟨input, inbound, inputDone, .draining, engine, outbound,
        engineDone, output, sink, result⟩ true .finishing with
      ⟨empty, popped⟩ | ⟨after, command, contents, popped⟩
    · -- the flag was set before the ring was found empty, so nothing can come any more
      rw [popped]
      exact ⟨orderly.goOn (by simp) (by simp) rfl (fun _ => closed),
        Or.inl (.finish closed empty rfl)⟩
    · rw [popped]
      exact popInbound_refines config orderly rfl rfl true (fun _ => closed) contents
  | publishing processed inputSeen =>
    rcases outbound.tryPush_cases processed with ⟨_, refused⟩ | ⟨after, pushed, contents⟩
    · simp only [engineStep, refused, Bool.false_eq_true, if_false, Option.some.injEq] at taken
      subst taken
      exact ⟨⟨seen, done, past, reported, ⟨counts.1, counts.2, counts.3, counts.4⟩⟩, Or.inr rfl⟩
    · simp only [engineStep, pushed, if_true, Option.some.injEq] at taken
      subst taken
      have stays : (if inputSeen then EnginePhase.draining else .polling) ≠ .exited := by
        cases inputSeen <;> decide
      refine ⟨⟨?_, ?_, past, fun gone => absurd gone stays, ?_⟩, Or.inl ?_⟩
      · intro saw
        cases inputSeen with
        | true => exact seen rfl
        | false => cases saw
      · intro flag
        cases done flag
      · cases inputSeen <;>
          simpa [Relay.made, RunContext.relay, EnginePhase.pending, contents] using counts
      · cases inputSeen <;> simp only [RunContext.relay, contents] <;> exact .put rfl
  | finishing =>
    cases taken
    exact ⟨⟨seen, fun _ => rfl, fun _ => rfl, fun _ => ⟨rfl, rfl⟩,
      ⟨counts.1, counts.2, counts.3, counts.4⟩⟩, Or.inr rfl⟩
  | exited => cases taken

/-- The two outcomes of a pop by the output thread. -/
theorem popOutbound_cases (ctx : RunContext inboundCapacity outboundCapacity)
    (otherwise : OutputPhase) :
    (ctx.outbound.contents = [] ∧ popOutbound ctx otherwise = { ctx with output := otherwise }) ∨
      ∃ outbound processed, ctx.outbound.contents = processed :: outbound.contents ∧
        popOutbound ctx otherwise =
          { ctx with outbound := outbound, sink := ctx.sink ++ [processed] } := by
  unfold popOutbound
  rcases ctx.outbound.tryPop_cases with ⟨empty, popped⟩ | ⟨outbound, processed, popped, contents⟩
  · exact Or.inl ⟨empty, by rw [popped]⟩
  · exact Or.inr ⟨outbound, processed, contents, by rw [popped]⟩

/-- A record that was popped is delivered by the relay. -/
theorem popOutbound_refines (config : RiskConfig) (orderly : Orderly ctx)
    {outbound : SpscRing ProcessedCommand outboundCapacity} {processed : ProcessedCommand}
    (contents : ctx.outbound.contents = processed :: outbound.contents) :
    let next : RunContext inboundCapacity outboundCapacity := { ctx with
      outbound := outbound
      sink := ctx.sink ++ [processed] }
    Orderly next ∧ Refines config ctx next := by
  have made : ctx.relay.made = ctx.sink ++ [processed] ++ outbound.contents ++
      ctx.enginePhase.pending.toList := by
    simp [Relay.made, RunContext.relay, contents]
  have counts := orderly.counts
  rw [made] at counts
  exact ⟨⟨orderly.inputSeen, orderly.engineDone, orderly.engineSeen, orderly.reported, counts⟩,
    Or.inl (.deliver contents)⟩

theorem outputStep_refines (orderly : Orderly ctx) (taken : outputStep ctx = some next) :
    Orderly next ∧ Refines config ctx next := by
  obtain ⟨seen, done, past, reported, counts⟩ := id orderly
  obtain ⟨input, inbound, inputDone, enginePhase, engine, outbound, engineDone, phase, sink,
    result⟩ := ctx
  cases phase with
  | polling =>
    simp only [outputStep, Option.some.injEq] at taken
    subst taken
    rcases popOutbound_cases ⟨input, inbound, inputDone, enginePhase, engine, outbound,
        engineDone, .polling, sink, result⟩ .checking with
      ⟨_, popped⟩ | ⟨after, processed, contents, popped⟩
    · rw [popped]
      exact ⟨⟨seen, done, fun saw => absurd saw Bool.false_ne_true, reported, counts⟩, Or.inr rfl⟩
    · rw [popped]
      exact popOutbound_refines config orderly contents
  | checking =>
    cases flag : engineDone with
    | true =>
      simp only [outputStep, flag, if_true, Option.some.injEq] at taken
      subst flag taken
      exact ⟨⟨seen, done, fun _ => rfl, reported, counts⟩, Or.inr rfl⟩
    | false =>
      simp only [outputStep, flag, Bool.false_eq_true, if_false, Option.some.injEq] at taken
      subst flag taken
      exact ⟨⟨seen, done, fun saw => absurd saw Bool.false_ne_true, reported, counts⟩, Or.inr rfl⟩
  | draining =>
    have finished : enginePhase = .exited := done (past rfl)
    simp only [outputStep, Option.some.injEq] at taken
    subst taken finished
    rcases popOutbound_cases ⟨input, inbound, inputDone, .exited, engine, outbound,
        engineDone, .draining, sink, result⟩ .exited with
      ⟨empty, popped⟩ | ⟨after, processed, contents, popped⟩
    · rw [popped]
      exact ⟨⟨seen, done, past, reported, counts⟩, Or.inl (.stop rfl empty)⟩
    · rw [popped]
      exact popOutbound_refines config orderly contents
  | exited => cases taken

theorem step_refines (orderly : Orderly ctx) {stage : Stage}
    (taken : step config ctx stage = some next) : Orderly next ∧ Refines config ctx next := by
  cases stage with
  | input => exact inputStep_refines orderly taken
  | engine => exact engineStep_refines orderly taken
  | output => exact outputStep_refines orderly taken

/-- In every reachable state the threads are orderly and the relay has lost nothing. -/
theorem Reachable.lossless {commands : List Command} (reached : Reachable config commands ctx) :
    Orderly ctx ∧
      ctx.relay.Lossless (processCommand config) (MatchingEngine.new .baseline) commands := by
  induction reached with
  | new =>
    have start : (RunContext.new commands : RunContext inboundCapacity outboundCapacity).relay =
        Relay.init (MatchingEngine.new .baseline) commands := by
      simp only [RunContext.relay, RunContext.new, SpscRing.new_contents]
      rfl
    refine ⟨⟨nofun, nofun, nofun, nofun, ?_⟩, ?_⟩
    · rw [start]
      exact ⟨rfl, rfl, rfl, rfl⟩
    · rw [start]
      exact Relay.lossless_init
  | step _ stage taken ih =>
    obtain ⟨orderly, kept⟩ := ih
    obtain ⟨next, moved | same⟩ := step_refines orderly taken
    · exact ⟨next, kept.step moved⟩
    · rw [same]
      exact ⟨next, kept⟩

/-- The records of a run, next to what the gateway answered in it. -/
theorem run_processCommand (config : RiskConfig) (engine : MatchingEngine)
    (commands : List Command) :
    Machine.run (processCommand config) engine commands =
      ((Machine.run (applyCommand config) engine commands).1,
        List.zipWith ProcessedCommand.of commands
          (Machine.run (applyCommand config) engine commands).2) := by
  induction commands generalizing engine with
  | nil => rfl
  | cons command commands ih =>
    have later := ih (applyCommand config engine command).1
    simp only [Machine.run_cons, processCommand, zipWith_cons_cons]
    rw [later]

theorem events_zipWith (commands : List Command) (results : List GatewayResult)
    (length : results.length = commands.length) :
    (List.zipWith ProcessedCommand.of commands results).map (fun record => record.events.length) =
      results.map (fun result => result.events.length) := by
  have whole : (commands.zip results).map Prod.snd = results :=
    map_snd_zip (Nat.le_of_eq length)
  conv_rhs => rw [← whole]
  rw [← map_uncurry_zip_eq_zipWith, map_map, map_map]
  rfl

/-- The pipeline is lossless, whatever the interleaving and the capacities. In every reachable
state each command is in its place: taken in turn, in the ring, or still to be pushed; and so
is the record of each command taken. Once all threads have exited, the sink, the snapshot and
the counters are those of a sequential run. -/
theorem pipeline_lossless (config : RiskConfig) (commands : List Command)
    (ctx : RunContext inboundCapacity outboundCapacity)
    (reached : Reachable config commands ctx) :
    let sequential := Machine.run (applyCommand config) (MatchingEngine.new .baseline) commands
    let records := List.zipWith ProcessedCommand.of commands sequential.2
    (∃ taken, taken ++ ctx.inbound.contents ++ ctx.input.commands = commands ∧
        ctx.sink ++ ctx.outbound.contents ++ ctx.enginePhase.pending.toList =
          records.take taken.length) ∧
      (ctx.Exited →
        ctx.sink = records ∧
          ctx.result.snapshot = sequential.1.snapshot ∧
          ctx.result.lastSeq = sequential.1.seq ∧
          ctx.result.commandsProcessed = commands.length ∧
          ctx.result.commandsAccepted + ctx.result.commandsRejected = commands.length ∧
          ctx.result.eventsEmitted =
            (sequential.2.map (fun result => result.events.length)).sum) := by
  obtain ⟨orderly, lossless⟩ := reached.lossless
  have sequential := run_processCommand config (MatchingEngine.new .baseline) commands
  have length : (Machine.run (applyCommand config) (MatchingEngine.new .baseline)
      commands).2.length = commands.length := Machine.run_length _ _
  constructor
  · obtain ⟨taken, parts, made⟩ := lossless.made_eq
    rw [sequential] at made
    exact ⟨taken, parts, made⟩
  · rintro ⟨_, finished, ended⟩
    obtain ⟨complete, made⟩ := lossless.complete (by rw [RunContext.relay, ended]; rfl)
    obtain ⟨reported, last⟩ := orderly.reported finished
    have counts := orderly.counts
    rw [sequential] at complete
    have state : _ = ctx.engine := congrArg Prod.fst complete
    have sink : _ = ctx.sink := congrArg Prod.snd complete
    have delivered : ctx.relay.made = ctx.sink := made
    rw [delivered, ← sink] at counts
    simp only at state
    have processed : ctx.result.commandsProcessed = commands.length := by
      rw [counts.processed, length_zipWith, length, Nat.min_self]
    refine ⟨sink.symm, ?_, ?_, processed, counts.either.trans processed, ?_⟩
    · rw [reported, state]
    · rw [last, state]
    · rw [counts.emitted, events_zipWith commands _ length]

/-- A symbol is registered and an order rests, through rings of one slot. -/
def twoCommands : List Command := [.registerSymbol [65], .newLimit 0 1 .buy 100 5 .gtc]

/-- The input thread runs ahead until its ring is full; the others follow one by one. -/
def eagerInput : List Stage :=
  [.input, .input, .engine, .engine, .output, .input, .input, .output, .engine, .engine, .output,
    .engine, .engine, .engine, .engine, .output, .output, .output, .output, .output]

theorem pipeline_lossless_eagerInput :
    let ctx : RunContext 1 1 := interleave ⟨100, 10000⟩ eagerInput (.new twoCommands)
    ctx.Exited ∧ ctx.result.inboundBackpressureSpins = 1 ∧
      ctx.result.commandsProcessed = 2 := by
  have exited : (interleave ⟨100, 10000⟩ eagerInput (.new twoCommands) : RunContext 1 1).Exited := by
    decide
  have reached : Reachable ⟨100, 10000⟩ twoCommands
      (interleave ⟨100, 10000⟩ eagerInput (.new twoCommands) : RunContext 1 1) :=
    Reachable.new.interleave eagerInput
  have done := (pipeline_lossless ⟨100, 10000⟩ twoCommands _ reached).2 exited
  exact ⟨exited, by decide, done.2.2.2.1⟩

end ThreadedPipeline

end Qsl
