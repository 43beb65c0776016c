import Qsl.FairSchedule
import Qsl.PipelineRefinement

/- The threaded pipeline comes to its end. -/
namespace Qsl.ThreadedPipeline

open List

variable {inboundCapacity outboundCapacity : Nat}

def EnginePhase.left : EnginePhase → Nat
  | .polling | .checking => 3
  | .draining => 2
  | .publishing _ inputDone => if inputDone then 4 else 5
  | .finishing => 1
  | .exited => 0

def OutputPhase.left : OutputPhase → Nat
  | .polling | .checking => 2
  | .draining => 1
  | .exited => 0

def InputPhase.left : InputPhase → Nat
  | .pushing commands => 4 * commands.length + 1
  | .exited => 0

namespace RunContext

variable (ctx : RunContext inboundCapacity outboundCapacity)

/-- The steps that still move a command, a record or a thread: four for a command to be pushed, one
less with every step it is ahead. -/
def moves : Nat :=
  ctx.input.left + 3 * ctx.inbound.contents.length + ctx.enginePhase.left +
    ctx.outbound.contents.length + ctx.output.left

/-- The thread that can move something, at its next turn or the one after. -/
def helper : Stage :=
  match ctx.enginePhase with
  | .exited => .output
  | .publishing _ _ =>
    if ctx.outbound.contents.length = outboundCapacity then .output else .engine
  | .polling | .checking =>
    if ctx.inbound.contents = [] ∧ ctx.inputDone = false then .input else .engine
  | _ => .engine

/-- Whether that thread looks at a ring or a flag in vain before. -/
def detour : Bool :=
  match ctx.helper with
  | .input => false
  | .engine => ctx.enginePhase = .polling && ctx.inbound.contents.isEmpty ||
      ctx.enginePhase = .checking && !ctx.inputDone
  | .output => ctx.output = .polling && ctx.outbound.contents.isEmpty ||
      ctx.output = .checking && !ctx.engineDone

def work : Nat := 2 * ctx.moves + ctx.detour.toNat

end RunContext

/-- The flags tell how far their threads are, and who leaves has seen one. -/
structure Flagged (ctx : RunContext inboundCapacity outboundCapacity) : Prop where
  input : ctx.inputDone = true ↔ ctx.input = .exited
  engine : ctx.engineDone = true ↔ ctx.enginePhase = .exited
  inputSeen : ctx.enginePhase.sawDone = true → ctx.inputDone = true
  engineSeen : ctx.output.sawDone = true → ctx.engineDone = true

variable {config : RiskConfig} {ctx next : RunContext inboundCapacity outboundCapacity}

/-- A turn moves something, or it was in vain: then the helper is who it was, and only its own turn
has brought it closer. -/
def Turned (stage : Stage) (ctx next : RunContext inboundCapacity outboundCapacity) : Prop :=
  next.moves < ctx.moves ∨
    next.moves = ctx.moves ∧ next.helper = ctx.helper ∧
      if ctx.helper = stage then ctx.detour = true ∧ next.detour = false
      else next.detour = ctx.detour

theorem inputStep_turned (positive : 0 < inboundCapacity) (flagged : Flagged ctx)
    (taken : inputStep ctx = some next) : Flagged next ∧ Turned .input ctx next := by
  obtain ⟨input, engine, inputSeen, engineSeen⟩ := flagged
  unfold inputStep at taken
  split at taken
  · rename_i command commands pushing
    rcases ctx.inbound.tryPush_cases command with ⟨full, same⟩ | ⟨after, pushed, contents⟩
    · rw [same] at taken
      cases taken
      -- nobody waits for the input thread while the ring is full
      have other : ctx.helper ≠ .input := by
        have some : ctx.inbound.contents ≠ [] := ne_nil_of_length_pos (by omega)
        unfold RunContext.helper
        split <;> simp [some]
        split <;> simp
      exact ⟨⟨input, engine, inputSeen, engineSeen⟩, .inr ⟨rfl, rfl, by rw [if_neg other]; rfl⟩⟩
    · rw [pushed] at taken
      cases taken
      have idle : ¬ ctx.inputDone = true := fun done => by
        rw [input.mp done] at pushing
        cases pushing
      refine ⟨⟨iff_of_false idle (by simp), engine, inputSeen, engineSeen⟩, .inl ?_⟩
      simp only [RunContext.moves, pushing, contents, InputPhase.left, length_append,
        length_cons, length_nil]
      omega
  · rename_i pushing
    cases taken
    refine ⟨⟨iff_of_true rfl rfl, engine, fun _ => rfl, engineSeen⟩, .inl ?_⟩
    simp only [RunContext.moves, pushing, InputPhase.left]
    omega
  · cases taken

theorem engineStep_turned (flagged : Flagged ctx) (taken : engineStep config ctx = some next) :
    Flagged next ∧ Turned .engine ctx next := by
  obtain ⟨input, engine, inputSeen, engineSeen⟩ := flagged
  -- before its exit the thread has not set its flag
  have goes : ∀ {phase : EnginePhase}, phase ≠ .exited →
      (ctx.engineDone = true ↔ phase = .exited) := by
    intro phase going
    refine iff_of_false (fun done => ?_) going
    rw [engineStep, engine.mp done] at taken
    cases taken
  unfold engineStep at taken
  split at taken
  · rename_i polling
    cases taken
    rcases popInbound_cases config ctx false .checking with
      ⟨empty, same⟩ | ⟨inbound, command, contents, same⟩
    · rw [same]
      refine ⟨⟨input, goes (by simp), fun seen => (by cases seen), engineSeen⟩, .inr ?_⟩
      simp only [RunContext.moves, RunContext.detour, RunContext.helper, polling, empty,
        EnginePhase.left]
      cases ctx.inputDone <;> simp
    · rw [same]
      refine ⟨⟨input, goes (by simp), fun seen => (by cases seen), engineSeen⟩, .inl ?_⟩
      simp only [RunContext.moves, polling, contents, EnginePhase.left, length_cons]
      simp
      omega
  · rename_i checking
    split at taken
    · rename_i done
      cases taken
      refine ⟨⟨input, goes (by simp), fun _ => done, engineSeen⟩, .inl ?_⟩
      simp only [RunContext.moves, checking, EnginePhase.left]
      omega
    · rename_i going
      cases taken
      refine ⟨⟨input, goes (by simp), fun seen => (by cases seen), engineSeen⟩, .inr ?_⟩
      simp only [RunContext.moves, RunContext.detour, RunContext.helper, checking, EnginePhase.left]
      cases found : ctx.inbound.contents <;> simp [going]
  · rename_i draining
    cases taken
    have ended : ctx.inputDone = true := inputSeen (by rw [draining]; rfl)
    rcases popInbound_cases config ctx true .finishing with
      ⟨empty, same⟩ | ⟨inbound, command, contents, same⟩
    · rw [same]
      refine ⟨⟨input, goes (by simp), fun _ => ended, engineSeen⟩, .inl ?_⟩
      simp only [RunContext.moves, draining, EnginePhase.left]
      omega
    · rw [same]
      refine ⟨⟨input, goes (by simp), fun _ => ended, engineSeen⟩, .inl ?_⟩
      simp only [RunContext.moves, draining, contents, EnginePhase.left, length_cons]
      simp
      omega
  · rename_i processed inputDone publishing
    rcases ctx.outbound.tryPush_cases processed with ⟨full, same⟩ | ⟨after, pushed, contents⟩
    · rw [same] at taken
      cases taken
      -- it is the output thread that has to make room
      have other : ctx.helper ≠ .engine := by
        simp [RunContext.helper, publishing, full]
      exact ⟨⟨input, engine, inputSeen, engineSeen⟩, .inr ⟨rfl, rfl, by rw [if_neg other]; rfl⟩⟩
    · rw [pushed] at taken
      cases taken
      have told : (if inputDone then EnginePhase.draining else .polling).sawDone = true →
          ctx.inputDone = true := by
        rw [publishing] at inputSeen
        cases inputDone with
        | true => exact inputSeen
        | false => exact fun seen => by cases seen
      refine ⟨⟨input, goes (by cases inputDone <;> simp), told, engineSeen⟩, .inl ?_⟩
      simp only [RunContext.moves, publishing, contents, EnginePhase.left, length_append,
        length_cons, length_nil]
      cases inputDone <;> simp <;> omega
  · rename_i finishing
    cases taken
    refine ⟨⟨input, iff_of_true rfl rfl, fun _ => inputSeen (by rw [finishing]; rfl),
      fun _ => rfl⟩, .inl ?_⟩
    simp only [RunContext.moves, finishing, EnginePhase.left]
    omega
  · cases taken

/-- Who waits for the output thread. -/
theorem helper_output (awaited : ctx.helper = .output) :
    ctx.enginePhase = .exited ∨
      ctx.enginePhase ≠ .exited ∧ ctx.outbound.contents.length = outboundCapacity := by
  unfold RunContext.helper at awaited
  split at awaited
  · exact .inl ‹_›
  · rename_i publishing
    split at awaited
    · exact .inr ⟨by rw [publishing]; simp, ‹_›⟩
    · cases awaited
  · split at awaited <;> cases awaited
  · split at awaited <;> cases awaited
  · cases awaited

theorem turned_output {output : OutputPhase} (same : next = { ctx with output := output })
    (closer : ctx.helper = .output →
      (ctx.output = .polling && ctx.outbound.contents.isEmpty ||
          ctx.output = .checking && !ctx.engineDone) = true ∧
        (output = .polling && ctx.outbound.contents.isEmpty ||
          output = .checking && !ctx.engineDone) = false) :
    if ctx.helper = .output then ctx.detour = true ∧ next.detour = false
    else next.detour = ctx.detour := by
  have still : next.helper = ctx.helper := by rw [same]; rfl
  unfold RunContext.detour
  rw [still, same]
  cases awaited : ctx.helper with
  | output => exact closer awaited
  | input | engine => simp

theorem outputStep_turned (positive : 0 < outboundCapacity) (flagged : Flagged ctx)
    (taken : outputStep ctx = some next) : Flagged next ∧ Turned .output ctx next := by
  obtain ⟨input, engine, inputSeen, engineSeen⟩ := flagged
  unfold outputStep at taken
  split at taken
  · rename_i polling
    cases taken
    rcases popOutbound_cases ctx .checking with ⟨empty, same⟩ | ⟨outbound, record, contents, same⟩
    · rw [same]
      refine ⟨⟨input, engine, inputSeen, fun seen => by cases seen⟩, .inr ⟨?_, rfl, ?_⟩⟩
      · simp only [RunContext.moves, polling, OutputPhase.left]
      · refine turned_output rfl (fun awaited => ?_)
        have finished : ctx.engineDone = true := by
          rcases helper_output awaited with exited | ⟨-, full⟩
          · exact engine.mpr exited
          · rw [empty, length_nil] at full
            omega
        simp [polling, empty, finished]
    · rw [same]
      refine ⟨⟨input, engine, inputSeen, engineSeen⟩, .inl ?_⟩
      simp only [RunContext.moves, contents, length_cons]
      omega
  · rename_i checking
    split at taken
    · rename_i done
      cases taken
      refine ⟨⟨input, engine, inputSeen, fun _ => done⟩, .inl ?_⟩
      simp only [RunContext.moves, checking, OutputPhase.left]
      omega
    · rename_i going
      cases taken
      refine ⟨⟨input, engine, inputSeen, fun seen => by cases seen⟩, .inr ⟨?_, rfl, ?_⟩⟩
      · simp only [RunContext.moves, checking, OutputPhase.left]
      · refine turned_output rfl (fun awaited => ?_)
        have some : ctx.outbound.contents ≠ [] := by
          rcases helper_output awaited with exited | ⟨-, full⟩
          · exact absurd (engine.mpr exited) going
          · exact ne_nil_of_length_pos (by omega)
        simp [checking, some, going]
  · rename_i draining
    cases taken
    rcases popOutbound_cases ctx .exited with ⟨empty, same⟩ | ⟨outbound, record, contents, same⟩
    · rw [same]
      refine ⟨⟨input, engine, inputSeen, fun _ => engineSeen (by rw [draining]; rfl)⟩, .inl ?_⟩
      simp only [RunContext.moves, draining, OutputPhase.left]
      omega
    · rw [same]
      refine ⟨⟨input, engine, inputSeen, engineSeen⟩, .inl ?_⟩
      simp only [RunContext.moves, contents, length_cons]
      omega
  · cases taken

theorem step_turned {stage : Stage} (positive : 0 < inboundCapacity ∧ 0 < outboundCapacity)
    (flagged : Flagged ctx) (taken : step config ctx stage = some next) :
    Flagged next ∧ Turned stage ctx next := by
  cases stage with
  | input => exact inputStep_turned positive.1 flagged taken
  | engine => exact engineStep_turned flagged taken
  | output => exact outputStep_turned positive.2 flagged taken

/-- Before the end the helper has not exited. -/
theorem helper_steps (flagged : Flagged ctx) (going : ¬ ctx.Exited) :
    ∃ next, step config ctx ctx.helper = some next := by
  obtain ⟨input, engine, inputSeen, engineSeen⟩ := flagged
  rw [← Option.isSome_iff_exists]
  cases awaited : ctx.helper with
  | input =>
    have pushing : ctx.input ≠ .exited := by
      intro exited
      unfold RunContext.helper at awaited
      grind
    simp only [step, inputStep]
    split
    · split <;> rfl
    · rfl
    · exact absurd ‹_› pushing
  | engine =>
    have running : ctx.enginePhase ≠ .exited := by
      intro exited
      simp [RunContext.helper, exited] at awaited
    simp only [step, engineStep]
    split
    · rfl
    · split <;> rfl
    · rfl
    · split <;> rfl
    · rfl
    · exact absurd ‹_› running
  | output =>
    have running : ctx.output ≠ .exited := by
      intro exited
      have finished := engine.mp (engineSeen (by rw [exited]; rfl))
      exact going ⟨input.mp (inputSeen (by rw [finished]; rfl)), finished, exited⟩
    simp only [step, outputStep]
    split
    · rfl
    · split <;> rfl
    · rfl
    · exact absurd ‹_› running

theorem pipeline_progress (config : RiskConfig)
    (positive : 0 < inboundCapacity ∧ 0 < outboundCapacity) :
    FairSchedule.Progress (step config)
      (Flagged : RunContext inboundCapacity outboundCapacity → Prop) RunContext.Exited
      RunContext.work RunContext.helper where
  kept := fun flagged taken => (step_turned positive flagged taken).1
  calm := by
    intro ctx next stage flagged taken
    obtain ⟨-, moved | ⟨same, still, closer⟩⟩ := step_turned positive flagged taken
    · have small : next.detour.toNat ≤ 1 := Bool.toNat_le _
      unfold RunContext.work
      omega
    · unfold RunContext.work
      split at closer
      · rw [same, closer.1, closer.2]
        exact .inl (by simp)
      · rw [same, closer]
        exact .inr ⟨rfl, still⟩
  helps := by
    intro ctx flagged going
    obtain ⟨next, taken⟩ := helper_steps flagged going
    refine ⟨next, taken, ?_⟩
    obtain ⟨-, moved | ⟨same, still, closer⟩⟩ := step_turned positive flagged taken
    · have small : next.detour.toNat ≤ 1 := Bool.toNat_le _
      unfold RunContext.work
      omega
    · rw [if_pos rfl] at closer
      unfold RunContext.work
      rw [same, closer.1, closer.2]
      simp
  final := by
    rintro ctx stage ⟨input, engine, output⟩
    cases stage <;> simp [step, inputStep, engineStep, outputStep, input, engine, output]

theorem interleave_eq_run (config : RiskConfig) (stages : List Stage)
    (ctx : RunContext inboundCapacity outboundCapacity) :
    interleave config stages ctx = FairSchedule.run (step config) stages ctx := by
  induction stages generalizing ctx with
  | nil => rfl
  | cons stage stages ih => exact ih _

/-- The pipeline ends with the sequential run's results. Whatever the schedule and the capacities of
the rings, all three threads have exited after eight rounds for each command and fourteen more, where a
round is any stretch of the schedule in which every thread has a turn. -/
theorem pipeline_ends (config : RiskConfig) (commands : List Command)
    (positive : 0 < inboundCapacity ∧ 0 < outboundCapacity) {rounds : List (List Stage)}
    (fair : ∀ round ∈ rounds, ∀ stage, stage ∈ round)
    (enough : 8 * commands.length + 14 ≤ rounds.length) :
    let sequential := Machine.run (applyCommand config) (MatchingEngine.new .baseline) commands
    let ctx : RunContext inboundCapacity outboundCapacity :=
      interleave config rounds.flatten (.new commands)
    ctx.Exited ∧ ctx.sink = List.zipWith ProcessedCommand.of commands sequential.2 ∧
      ctx.result.snapshot = sequential.1.snapshot := by
  intro sequential ctx
  have start : Flagged (.new commands : RunContext inboundCapacity outboundCapacity) := by
    constructor <;> simp [RunContext.new, EnginePhase.sawDone, OutputPhase.sawDone]
  have work : (.new commands : RunContext inboundCapacity outboundCapacity).work <
      8 * commands.length + 14 := by
    have small : (RunContext.new commands : RunContext inboundCapacity
      outboundCapacity).detour.toNat ≤ 1 := Bool.toNat_le _
    simp only [RunContext.work, RunContext.moves, RunContext.new, SpscRing.new_contents,
      InputPhase.left, EnginePhase.left, OutputPhase.left, length_nil] at small ⊢
    omega
  have exited : ctx.Exited := by
    show (interleave config rounds.flatten _).Exited
    rw [interleave_eq_run]
    exact FairSchedule.run_ends (pipeline_progress config positive) fair start (by omega)
  have reached : Reachable config commands ctx := Reachable.new.interleave _
  obtain ⟨orderly, lossless⟩ := reached.lossless
  obtain ⟨complete, -⟩ := lossless.complete (by rw [RunContext.relay, exited.2.2]; rfl)
  rw [run_processCommand] at complete
  have state : sequential.1 = ctx.engine := congrArg Prod.fst complete
  have sink : _ = ctx.sink := congrArg Prod.snd complete
  refine ⟨exited, sink.symm, ?_⟩
  rw [(orderly.reported exited.2.1).1, state]

theorem pipeline_ends_rotation :
    let rounds := List.replicate 30 [Stage.output, .engine, .input]
    (interleave ⟨100, 10000⟩ rounds.flatten (.new twoCommands) : RunContext 1 1).Exited :=
  (pipeline_ends ⟨100, 10000⟩ twoCommands ⟨by decide, by decide⟩
    (fun round member => by
      rw [eq_of_mem_replicate member]
      intro stage
      cases stage <;> decide)
    (by decide)).1

end Qsl.ThreadedPipeline
