import Qsl.Protocol
import Qsl.EventStream

namespace Qsl

open Protocol

inductive SessionStatus where
  | ok
  | outputLimitExceeded
  deriving DecidableEq, Repr

/-- `numeric_limits<size_t>::max()`, the limit of an unbounded call. -/
def sizeMax : Nat := 2 ^ 64 - 1

def frameBytes (bodyBytes : Nat) : Nat := headerSize + bodyBytes

def heartbeatAckFrameBytes : Nat := frameBytes heartbeatBodySize

def ackFrameBytes : Nat := frameBytes ackBodySize

def rejectFrameBytes : Nat := frameBytes rejectBodySize

def fillFrameBytes : Nat := frameBytes fillBodySize

def hasSpace (current add limit : Nat) : Bool := current ≤ limit && add ≤ limit - current

def addSaturating (a b : Nat) : Nat := if b > sizeMax - a then sizeMax else a + b

def mulSaturating (a b : Nat) : Nat := if a ≠ 0 ∧ b > sizeMax / a then sizeMax else a * b

def resultWireSize (result : GatewayResult) : Nat :=
  if !result.accepted then rejectFrameBytes
  else result.events.foldl
    (fun size event => if event.isTrade then addSaturating size fillFrameBytes else size)
    ackFrameBytes

def Session.append (out bytes : List UInt8) (maxOutputBytes : Nat) : List UInt8 × SessionStatus :=
  if !hasSpace out.length bytes.length maxOutputBytes then (out, .outputLimitExceeded)
  else (out ++ bytes, .ok)

/-- The loop of `emit_result` over the events. -/
def emitFills (maxOutputBytes : Nat) : List EngineEvent → List UInt8 → List UInt8 × SessionStatus
  | [], out => (out, .ok)
  | .tradeEvent seq _ takerId makerId price quantity :: events, out =>
    let fill : Fill := ⟨takerId, makerId, price, quantity, seq⟩
    let (next, status) := Session.append out fill.encode maxOutputBytes
    if status ≠ .ok then (next, .outputLimitExceeded) else emitFills maxOutputBytes events next
  | _ :: events, out => emitFills maxOutputBytes events out

def emitResult (orderId : OrderId) (result : GatewayResult) (out : List UInt8)
    (maxOutputBytes : Nat) : List UInt8 × SessionStatus :=
  if !hasSpace out.length (resultWireSize result) maxOutputBytes then (out, .outputLimitExceeded)
  else if !result.accepted then
    let reject : Reject := ⟨orderId, result.reason⟩
    Session.append out reject.encode maxOutputBytes
  else
    let ack : Ack := ⟨orderId, (result.events.head?.map EngineEvent.seqOf).getD 0⟩
    let (acked, status) := Session.append out ack.encode maxOutputBytes
    if status ≠ .ok then (acked, .outputLimitExceeded)
    else emitFills maxOutputBytes result.events acked

def ensureNewOrderBudget (config : RiskConfig) (engine : MatchingEngine) (order : NewOrder)
    (out : List UInt8) (maxOutputBytes : Nat) : SessionStatus :=
  let preview := OrderGateway.previewNewOrder config engine order.symbol order.orderId order.side
    order.price order.quantity order.type order.tif
  let required :=
    if preview.accepted then
      addSaturating ackFrameBytes (mulSaturating preview.fillCount fillFrameBytes)
    else rejectFrameBytes
  if hasSpace out.length required maxOutputBytes then .ok else .outputLimitExceeded

/-- What a frame may change: the engine behind the gateway, the session's flag and the
output. -/
structure FrameContext where
  engine : MatchingEngine
  loggedOut : Bool
  out : List UInt8

section Handlers

variable (config : RiskConfig) (maxOutputBytes : Nat)

def closeSession (ctx : FrameContext) (status : SessionStatus) : FrameContext × SessionStatus :=
  ({ ctx with loggedOut := true }, status)

def closeForMalformedBody (ctx : FrameContext) : FrameContext × SessionStatus :=
  closeSession ctx .ok

def closeForOutputLimit (ctx : FrameContext) : FrameContext × SessionStatus :=
  closeSession ctx .outputLimitExceeded

def emitOrClose (ctx : FrameContext) (orderId : OrderId) (result : GatewayResult) :
    FrameContext × SessionStatus :=
  let (out, status) := emitResult orderId result ctx.out maxOutputBytes
  if status = .ok then ({ ctx with out := out }, .ok)
  else closeForOutputLimit { ctx with out := out }

def handleNewOrder (ctx : FrameContext) (frame : List UInt8) : FrameContext × SessionStatus :=
  match decodeNewOrder frame with
  | .error _ => closeForMalformedBody ctx
  | .ok o =>
    if maxOutputBytes ≠ sizeMax ∧
        ensureNewOrderBudget config ctx.engine o ctx.out maxOutputBytes ≠ .ok then
      closeForOutputLimit ctx
    else
      let (engine, result) :=
        if o.type = .market then
          OrderGateway.newMarket config ctx.engine o.symbol o.orderId o.side o.quantity
        else
          OrderGateway.newLimit config ctx.engine o.symbol o.orderId o.side o.price o.quantity
            o.tif
      emitOrClose maxOutputBytes { ctx with engine := engine } o.orderId result

def handleCancelOrder (ctx : FrameContext) (frame : List UInt8) : FrameContext × SessionStatus :=
  match decodeCancelOrder frame with
  | .error _ => closeForMalformedBody ctx
  | .ok request =>
    if !hasSpace ctx.out.length (max ackFrameBytes rejectFrameBytes) maxOutputBytes then
      closeForOutputLimit ctx
    else
      let (engine, result) := OrderGateway.cancel ctx.engine request.symbol request.orderId
      emitOrClose maxOutputBytes { ctx with engine := engine } request.orderId result

def handleHeartbeat (ctx : FrameContext) (frame : List UInt8) : FrameContext × SessionStatus :=
  match decodeHeartbeat frame with
  | .error _ => closeForMalformedBody ctx
  | .ok request =>
    if !hasSpace ctx.out.length heartbeatAckFrameBytes maxOutputBytes then
      closeForOutputLimit ctx
    else
      let reply : HeartbeatAck := ⟨request.token⟩
      let (out, status) := Session.append ctx.out reply.encode maxOutputBytes
      ({ ctx with out := out }, status)

def handleUnexpectedMessage (ctx : FrameContext) : FrameContext × SessionStatus :=
  closeSession ctx .ok

/-- `on_bytes` has validated the header; without one the session closes all the same. -/
def processFrame (ctx : FrameContext) (frame : List UInt8) : FrameContext × SessionStatus :=
  match decodeHeader frame with
  | .error _ => handleUnexpectedMessage ctx
  | .ok header =>
    match header.type with
    | .newOrder => handleNewOrder config maxOutputBytes ctx frame
    | .cancelOrder => handleCancelOrder maxOutputBytes ctx frame
    | .heartbeat => handleHeartbeat maxOutputBytes ctx frame
    | _ => handleUnexpectedMessage ctx

end Handlers

structure Session where
  inbuf : List UInt8
  loggedOut : Bool
  deriving DecidableEq, Repr

/-- What a call of `on_bytes` leaves and answers. -/
structure SessionReply where
  engine : MatchingEngine
  session : Session
  out : List UInt8
  status : SessionStatus

/-- The variables of the loop in `on_bytes`. -/
structure Intake where
  ctx : FrameContext
  consumed : Nat
  status : SessionStatus

namespace Session

def new : Session := ⟨[], false⟩

variable (config : RiskConfig)

/-- The body of the loop; it ends when the session closes, a frame fails, or bytes are
missing. -/
def onBytesStep (maxOutputBytes : Nat) (inbuf : List UInt8) (intake : Intake) : Option Intake :=
  if intake.status ≠ .ok ∨ intake.ctx.loggedOut = true then none
  else
    let remaining := inbuf.drop intake.consumed
    if remaining.length < headerSize then none
    else
      match decodeHeader remaining with
      | .error _ => some { intake with ctx := { intake.ctx with loggedOut := true } }
      | .ok header =>
        let total := headerSize + header.bodyLen
        if remaining.length < total then none
        else
          let (ctx, status) :=
            processFrame config maxOutputBytes intake.ctx (remaining.take total)
          if status ≠ .ok then some { intake with ctx := ctx, status := status }
          else some { intake with ctx := ctx, consumed := intake.consumed + total }

/-- The bounded call: responses are appended to `out`. -/
def onBytes (session : Session) (engine : MatchingEngine) (input out : List UInt8)
    (maxOutputBytes : Nat) : SessionReply :=
  if session.loggedOut then ⟨engine, session, out, .ok⟩
  else
    let inbuf := session.inbuf ++ input
    let final := WhileLoop.run (onBytesStep config maxOutputBytes inbuf) (inbuf.length + 1)
      ⟨⟨engine, false, out⟩, 0, .ok⟩
    ⟨final.ctx.engine, ⟨inbuf.drop final.consumed, final.ctx.loggedOut⟩, final.ctx.out,
      final.status⟩

/-- The call without a bound: responses are returned. -/
def onBytesUnbounded (session : Session) (engine : MatchingEngine) (input : List UInt8) :
    SessionReply :=
  session.onBytes config engine input [] sizeMax

end Session

end Qsl
