import Qsl.OrderGateway
import Qsl.Relay
import Qsl.SpscRing

namespace Qsl

/-- What the engine thread hands on: the command, the gateway's verdict and the events. -/
structure ProcessedCommand where
  command : Command
  accepted : Bool
  reason : RejectReason
  events : List EngineEvent
  deriving DecidableEq, Repr

def ProcessedCommand.of (command : Command) (result : GatewayResult) : ProcessedCommand :=
  ⟨command, result.accepted, result.reason, result.events⟩

instance : Inhabited Command := ⟨.registerSymbol []⟩

instance : Inhabited ProcessedCommand := ⟨⟨default, false, .none, []⟩⟩

structure PipelineResult where
  snapshot : EngineSnapshot
  commandsProcessed : Nat
  commandsAccepted : Nat
  commandsRejected : Nat
  eventsEmitted : Nat
  lastSeq : SeqNo
  inboundBackpressureSpins : Nat
  outboundBackpressureSpins : Nat

/-- One more command is done. -/
def PipelineResult.count (result : PipelineResult) (processed : ProcessedCommand) :
    PipelineResult :=
  { result with
    commandsProcessed := result.commandsProcessed + 1
    commandsAccepted :=
      if processed.accepted then result.commandsAccepted + 1 else result.commandsAccepted
    commandsRejected :=
      if processed.accepted then result.commandsRejected else result.commandsRejected + 1
    eventsEmitted := result.eventsEmitted + processed.events.length }

namespace ThreadedPipeline

/-- Where the input thread stands: it has commands to push, or its flag to store. -/
inductive InputPhase where
  | pushing (commands : List Command)
  | exited
  deriving DecidableEq, Repr

/-- Where the engine thread stands. It polls the ring; on an empty one it loads `input_done`;
once that is set it drains the ring. A processed command is pushed before it goes on. -/
inductive EnginePhase where
  | polling
  | checking
  | draining
  | publishing (processed : ProcessedCommand) (inputDone : Bool)
  | finishing
  | exited
  deriving DecidableEq, Repr

/-- Where the output thread stands. -/
inductive OutputPhase where
  | polling
  | checking
  | draining
  | exited
  deriving DecidableEq, Repr

structure RunContext (inboundCapacity outboundCapacity : Nat) where
  input : InputPhase
  inbound : SpscRing Command inboundCapacity
  inputDone : Bool
  enginePhase : EnginePhase
  engine : MatchingEngine
  outbound : SpscRing ProcessedCommand outboundCapacity
  engineDone : Bool
  output : OutputPhase
  sink : List ProcessedCommand
  result : PipelineResult

variable {inboundCapacity outboundCapacity : Nat}

def RunContext.new (commands : List Command) : RunContext inboundCapacity outboundCapacity where
  input := .pushing commands
  inbound := .new
  inputDone := false
  enginePhase := .polling
  engine := MatchingEngine.new .baseline
  outbound := .new
  engineDone := false
  output := .polling
  sink := []
  result := ⟨⟨0, []⟩, 0, 0, 0, 0, 0, 0, 0⟩

/-- One pass of `push_inbound_lossless`, or the store of the flag behind the last command. -/
def inputStep (ctx : RunContext inboundCapacity outboundCapacity) :
    Option (RunContext inboundCapacity outboundCapacity) :=
  match ctx.input with
  | .pushing (command :: commands) =>
    let (inbound, pushed) := ctx.inbound.tryPush command
    if pushed then some { ctx with inbound := inbound, input := .pushing commands }
    else some { ctx with
      result.inboundBackpressureSpins := ctx.result.inboundBackpressureSpins + 1 }
  | .pushing [] => some { ctx with inputDone := true, input := .exited }
  | .exited => none

section Engine

variable (config : RiskConfig)

/-- The command carried out, and the record of it. -/
def processCommand (engine : MatchingEngine) (command : Command) :
    MatchingEngine × ProcessedCommand :=
  let (after, result) := applyCommand config engine command
  (after, .of command result)

def applyToEngine (ctx : RunContext inboundCapacity outboundCapacity) (command : Command) :
    RunContext inboundCapacity outboundCapacity × ProcessedCommand :=
  let (engine, processed) := processCommand config ctx.engine command
  ({ ctx with engine := engine, result := ctx.result.count processed }, processed)

/-- A pop of the inbound ring; a command is applied at once, on this thread alone. -/
def popInbound (ctx : RunContext inboundCapacity outboundCapacity) (inputDone : Bool)
    (otherwise : EnginePhase) : RunContext inboundCapacity outboundCapacity :=
  match ctx.inbound.tryPop with
  | (inbound, some command) =>
    let (applied, processed) := applyToEngine config { ctx with inbound := inbound } command
    { applied with enginePhase := .publishing processed inputDone }
  | (_, none) => { ctx with enginePhase := otherwise }

def engineStep (ctx : RunContext inboundCapacity outboundCapacity) :
    Option (RunContext inboundCapacity outboundCapacity) :=
  match ctx.enginePhase with
  | .polling => some (popInbound config ctx false .checking)
  | .checking =>
    if ctx.inputDone then some { ctx with enginePhase := .draining }
    else some { ctx with enginePhase := .polling }
  | .draining => some (popInbound config ctx true .finishing)
  | .publishing processed inputDone =>
    let (outbound, pushed) := ctx.outbound.tryPush processed
    if pushed then
      some { ctx with
        outbound := outbound
        enginePhase := if inputDone then .draining else .polling }
    else some { ctx with
      result.outboundBackpressureSpins := ctx.result.outboundBackpressureSpins + 1 }
  | .finishing => some { ctx with
      result.snapshot := ctx.engine.snapshot
      result.lastSeq := ctx.engine.seq
      engineDone := true
      enginePhase := .exited }
  | .exited => none

end Engine

/-- A pop of the outbound ring; a record goes to the sink. -/
def popOutbound (ctx : RunContext inboundCapacity outboundCapacity) (otherwise : OutputPhase) :
    RunContext inboundCapacity outboundCapacity :=
  match ctx.outbound.tryPop with
  | (outbound, some processed) =>
    { ctx with outbound := outbound, sink := ctx.sink ++ [processed] }
  | (_, none) => { ctx with output := otherwise }

def outputStep (ctx : RunContext inboundCapacity outboundCapacity) :
    Option (RunContext inboundCapacity outboundCapacity) :=
  match ctx.output with
  | .polling => some (popOutbound ctx .checking)
  | .checking =>
    if ctx.engineDone then some { ctx with output := .draining }
    else some { ctx with output := .polling }
  | .draining => some (popOutbound ctx .exited)
  | .exited => none

inductive Stage where
  | input
  | engine
  | output
  deriving DecidableEq, Repr

/-- The thread of one stage takes a step; there is none after its exit. -/
def step (config : RiskConfig) (ctx : RunContext inboundCapacity outboundCapacity) :
    Stage → Option (RunContext inboundCapacity outboundCapacity)
  | .input => inputStep ctx
  | .engine => engineStep config ctx
  | .output => outputStep ctx

def RunContext.Exited (ctx : RunContext inboundCapacity outboundCapacity) : Prop :=
  ctx.input = .exited ∧ ctx.enginePhase = .exited ∧ ctx.output = .exited

instance (ctx : RunContext inboundCapacity outboundCapacity) : Decidable ctx.Exited :=
  inferInstanceAs (Decidable (_ ∧ _ ∧ _))

/-- The threads take steps in this order; a turn after the exit is skipped. -/
def interleave (config : RiskConfig) :
    List Stage → RunContext inboundCapacity outboundCapacity →
      RunContext inboundCapacity outboundCapacity
  | [], ctx => ctx
  | stage :: stages, ctx => interleave config stages ((step config ctx stage).getD ctx)

/-- What some interleaving of the three threads makes of a run's first state. -/
inductive Reachable (config : RiskConfig) (commands : List Command) :
    RunContext inboundCapacity outboundCapacity → Prop
  | new : Reachable config commands (.new commands)
  | step {ctx next : RunContext inboundCapacity outboundCapacity}
      (reached : Reachable config commands ctx) (stage : Stage)
      (taken : step config ctx stage = some next) : Reachable config commands next

theorem Reachable.interleave {config : RiskConfig} {commands : List Command}
    {ctx : RunContext inboundCapacity outboundCapacity} (reached : Reachable config commands ctx)
    (stages : List Stage) : Reachable config commands (interleave config stages ctx) := by
  induction stages generalizing ctx with
  | nil => exact reached
  | cons stage stages ih =>
    cases taken : ThreadedPipeline.step config ctx stage with
    | none => simpa [ThreadedPipeline.interleave, taken] using ih reached
    | some next =>
      simpa [ThreadedPipeline.interleave, taken] using ih (reached.step stage taken)

end ThreadedPipeline

end Qsl
