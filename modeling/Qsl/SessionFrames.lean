import Qsl.NewOrderPreview
import Qsl.Session

namespace Qsl

open List
open Protocol

/-- The messages that a session sends. -/
inductive Response where
  | heartbeatAck (msg : HeartbeatAck)
  | ack (msg : Ack)
  | reject (msg : Reject)
  | fill (msg : Fill)
  deriving DecidableEq, Repr

def Response.encode : Response → List UInt8
  | .heartbeatAck msg => msg.encode
  | .ack msg => msg.encode
  | .reject msg => msg.encode
  | .fill msg => msg.encode

/-- Whole response frames, one after the other. -/
def wire (responses : List Response) : List UInt8 := responses.flatMap Response.encode

def EngineEvent.fillMessage? : EngineEvent → Option Response
  | .tradeEvent seq _ takerId makerId price quantity =>
    some (.fill ⟨takerId, makerId, price, quantity, seq⟩)
  | _ => none

/-- What the gateway's result is worth on the wire: a reject, or an acknowledgement and a fill
for each trade. -/
def GatewayResult.responses (orderId : OrderId) (result : GatewayResult) : List Response :=
  if result.accepted then
    .ack ⟨orderId, (result.events.head?.map EngineEvent.seqOf).getD 0⟩ ::
      result.events.filterMap EngineEvent.fillMessage?
  else [.reject ⟨orderId, result.reason⟩]

theorem hasSpace_iff {current add limit : Nat} :
    hasSpace current add limit = true ↔ current + add ≤ limit := by
  simp only [hasSpace, Bool.and_eq_true, decide_eq_true_eq]
  omega

theorem hasSpace_false_iff {current add limit : Nat} :
    hasSpace current add limit = false ↔ limit < current + add := by
  rw [← Bool.not_eq_true, hasSpace_iff]
  omega

theorem addSaturating_eq {a b : Nat} (bounded : a + b ≤ sizeMax) : addSaturating a b = a + b := by
  rw [addSaturating, if_neg (by omega)]

theorem mulSaturating_eq {a b : Nat} (bounded : a * b ≤ sizeMax) : mulSaturating a b = a * b := by
  refine if_neg ?_
  rintro ⟨some, exceeds⟩
  have covered : b ≤ sizeMax / a := by
    rw [Nat.le_div_iff_mul_le (Nat.pos_of_ne_zero some), Nat.mul_comm]
    exact bounded
  omega

theorem wire_fills_length (events : List EngineEvent) :
    (wire (events.filterMap EngineEvent.fillMessage?)).length =
      events.countP EngineEvent.isTrade * fillFrameBytes := by
  induction events with
  | nil => simp [wire]
  | cons event events ih =>
    cases event with
    | tradeEvent seq symbol takerId makerId price quantity =>
      have encoded : ∀ msg : Fill, msg.encode.length = fillFrameBytes := Fill.encode_length
      simp only [wire, EngineEvent.fillMessage?, filterMap_cons, flatMap_cons,
        length_append, Response.encode, encoded] at ih ⊢
      rw [ih, countP_cons_of_pos rfl, Nat.add_mul, Nat.one_mul, Nat.add_comm]
    | _ => exact ih

theorem wire_responses_length (orderId : OrderId) (result : GatewayResult) :
    (wire (result.responses orderId)).length =
      if result.accepted then
        ackFrameBytes + result.events.countP EngineEvent.isTrade * fillFrameBytes
      else rejectFrameBytes := by
  rw [GatewayResult.responses]
  split
  · have fills := wire_fills_length result.events
    simp only [wire, flatMap_cons, length_append] at fills ⊢
    rw [fills]
    exact congrArg (· + _) (Ack.encode_length _)
  · simp only [wire, flatMap_cons, flatMap_nil, append_nil]
    exact Reject.encode_length _

/-- A result that names fewer trades than there are quantities. -/
def GatewayResult.Brief (result : GatewayResult) : Prop :=
  result.events.countP EngineEvent.isTrade < 2 ^ 32

section Emit

variable {out : List UInt8} {limit : Nat} {result : GatewayResult}

/-- The responses of one command stay far below the end of the address space. -/
theorem wire_responses_le (brief : result.Brief) (orderId : OrderId) :
    (wire (result.responses orderId)).length ≤ 2 ^ 38 := by
  unfold GatewayResult.Brief at brief
  rw [wire_responses_length]
  simp only [ackFrameBytes, fillFrameBytes, rejectFrameBytes, frameBytes, headerSize, ackBodySize,
    fillBodySize, rejectBodySize]
  split <;> omega

theorem Session.append_eq (out bytes : List UInt8) (limit : Nat) :
    Session.append out bytes limit =
      if out.length + bytes.length ≤ limit then (out ++ bytes, .ok)
      else (out, .outputLimitExceeded) := by
  unfold Session.append
  by_cases fits : out.length + bytes.length ≤ limit
  · simp [hasSpace_iff.mpr fits, fits]
  · have full := hasSpace_false_iff.mpr (Nat.lt_of_not_le fits)
    simp [full, fits]

theorem emitFills_eq (events : List EngineEvent)
    (fits : out.length + events.countP EngineEvent.isTrade * fillFrameBytes ≤ limit) :
    emitFills limit events out =
      (out ++ wire (events.filterMap EngineEvent.fillMessage?), .ok) := by
  induction events generalizing out with
  | nil => simp [emitFills, wire]
  | cons event events ih =>
    cases event with
    | tradeEvent seq symbol takerId makerId price quantity =>
      have encoded : ∀ msg : Fill, msg.encode.length = fillFrameBytes := Fill.encode_length
      rw [countP_cons_of_pos rfl, Nat.add_mul, Nat.one_mul] at fits
      rw [emitFills, Session.append_eq, if_pos (by rw [encoded]; omega)]
      simp only [ne_eq, not_true_eq_false, if_false]
      rw [ih (by rw [length_append, encoded]; omega)]
      simp [wire, EngineEvent.fillMessage?, Response.encode]
    | _ => exact ih fits

theorem resultWireSize_eq (brief : result.Brief) (orderId : OrderId) :
    resultWireSize result = (wire (result.responses orderId)).length := by
  have summed : ∀ (events : List EngineEvent) (size : Nat),
      size + events.countP EngineEvent.isTrade * fillFrameBytes ≤ sizeMax →
      events.foldl (fun size event =>
          if event.isTrade then addSaturating size fillFrameBytes else size) size =
        size + events.countP EngineEvent.isTrade * fillFrameBytes := by
    intro events
    induction events with
    | nil => simp
    | cons event events ih =>
      intro size bounded
      rw [foldl_cons, countP_cons] at *
      cases trade : event.isTrade with
      | true =>
        rw [trade] at bounded
        simp only [if_true, Nat.add_mul, Nat.one_mul] at bounded ⊢
        rw [addSaturating_eq (by omega), ih _ (by omega)]
        omega
      | false =>
        rw [trade] at bounded
        simp only [Bool.false_eq_true, if_false, Nat.add_zero] at bounded ⊢
        exact ih size bounded
  have small := wire_responses_le brief orderId
  rw [wire_responses_length] at small ⊢
  rw [resultWireSize]
  cases taken : result.accepted with
  | false => simp
  | true =>
    simp only [taken, if_true] at small
    have top : (2 : Nat) ^ 38 ≤ sizeMax := by decide
    simp only [Bool.not_true, Bool.false_eq_true, if_false, if_true]
    exact summed _ _ (Nat.le_trans small top)

/-- A whole result is sent, or nothing of it. -/
theorem emitResult_eq (brief : result.Brief) (orderId : OrderId) (out : List UInt8) (limit : Nat) :
    emitResult orderId result out limit =
      if out.length + (wire (result.responses orderId)).length ≤ limit then
        (out ++ wire (result.responses orderId), .ok)
      else (out, .outputLimitExceeded) := by
  rw [emitResult, resultWireSize_eq brief orderId]
  by_cases fits : out.length + (wire (result.responses orderId)).length ≤ limit
  · rw [hasSpace_iff.mpr fits, if_pos fits]
    rw [wire_responses_length] at fits
    cases taken : result.accepted with
    | false =>
      simp only [taken, Bool.false_eq_true, if_false] at fits
      have encoded : ∀ msg : Reject, msg.encode.length = rejectFrameBytes := Reject.encode_length
      simp only [Bool.not_true, Bool.false_eq_true, if_false, Bool.not_false, if_true]
      rw [Session.append_eq, if_pos (by rw [encoded]; exact fits)]
      simp [GatewayResult.responses, taken, wire, Response.encode]
    | true =>
      simp only [taken, if_true] at fits
      have encoded : ∀ msg : Ack, msg.encode.length = ackFrameBytes := Ack.encode_length
      have room : out.length + ackFrameBytes ≤ limit := by omega
      simp only [Bool.not_true, Bool.false_eq_true, if_false, Session.append_eq, encoded, room,
        if_true, ne_eq, not_true_eq_false]
      rw [emitFills_eq _ (by rw [length_append, encoded]; omega)]
      simp [GatewayResult.responses, taken, wire, Response.encode]
  · have full := hasSpace_false_iff.mpr (Nat.lt_of_not_le fits)
    rw [full, if_neg fits]
    rfl

end Emit

/-- The messages that a session serves. -/
inductive Request where
  | newOrder (order : NewOrder)
  | cancelOrder (order : CancelOrder)
  | heartbeat (beat : Heartbeat)
  deriving DecidableEq, Repr

/-- The request in a frame; there is none if the type is not one of requests or the body does
not decode. -/
def request? (frame : List UInt8) : Option Request :=
  match decodeHeader frame with
  | .error _ => none
  | .ok header =>
    match header.type with
    | .newOrder => (decodeNewOrder frame).toOption.map .newOrder
    | .cancelOrder => (decodeCancelOrder frame).toOption.map .cancelOrder
    | .heartbeat => (decodeHeartbeat frame).toOption.map .heartbeat
    | _ => none

namespace Request

variable (config : RiskConfig) (engine : MatchingEngine)

/-- The request carried out and answered. -/
def serve : Request → MatchingEngine × List Response
  | .newOrder order =>
    let (after, result) := applyCommand config engine order.command
    (after, result.responses order.orderId)
  | .cancelOrder order =>
    let (after, result) := applyCommand config engine (.cancel order.symbol order.orderId)
    (after, result.responses order.orderId)
  | .heartbeat beat => (engine, [.heartbeatAck ⟨beat.token⟩])

/-- The room that a request asks for: its answer, or the longest answer to a cancel. -/
def budget (request : Request) : Nat :=
  match request with
  | .newOrder _ => (wire (request.serve config engine).2).length
  | .cancelOrder _ => max ackFrameBytes rejectFrameBytes
  | .heartbeat _ => heartbeatAckFrameBytes

/-- The engine behind a request that found no room. Only the unbounded call goes ahead with an
order first. -/
def overrun (limit : Nat) (request : Request) : MatchingEngine :=
  match request with
  | .newOrder _ => if limit = sizeMax then (request.serve config engine).1 else engine
  | _ => engine

end Request

section Process

variable {storage : Storage} {config : RiskConfig} {limit : Nat} {ctx : FrameContext}
  {frame : List UInt8}

/-- A frame without a request closes the session. -/
theorem process_none (closing : request? frame = none) :
    processFrame config limit ctx frame = ({ ctx with loggedOut := true }, .ok) := by
  unfold request? at closing
  unfold processFrame
  cases found : decodeHeader frame with
  | error reason => rfl
  | ok header =>
    simp only [found] at closing ⊢
    cases type : header.type with
    | newOrder =>
      simp only [type] at closing ⊢
      cases decoded : decodeNewOrder frame with
      | error reason => simp only [handleNewOrder, decoded]; rfl
      | ok order => simp [decoded, Except.toOption] at closing
    | cancelOrder =>
      simp only [type] at closing ⊢
      cases decoded : decodeCancelOrder frame with
      | error reason => simp only [handleCancelOrder, decoded]; rfl
      | ok order => simp [decoded, Except.toOption] at closing
    | heartbeat =>
      simp only [type] at closing ⊢
      cases decoded : decodeHeartbeat frame with
      | error reason => simp only [handleHeartbeat, decoded]; rfl
      | ok beat => simp [decoded, Except.toOption] at closing
    | _ => rfl

theorem emitOrClose_eq {result : GatewayResult} (brief : result.Brief) (orderId : OrderId) :
    emitOrClose limit ctx orderId result =
      if ctx.out.length + (wire (result.responses orderId)).length ≤ limit then
        ({ ctx with out := ctx.out ++ wire (result.responses orderId) }, .ok)
      else ({ ctx with loggedOut := true }, .outputLimitExceeded) := by
  rw [emitOrClose, emitResult_eq brief]
  by_cases fits : ctx.out.length + (wire (result.responses orderId)).length ≤ limit
  · rw [if_pos fits, if_pos fits]
    rfl
  · rw [if_neg fits, if_neg fits]
    rfl

theorem newOrder_brief {engine : MatchingEngine} (valid : engine.Valid) (config : RiskConfig)
    (order : NewOrder) : (applyCommand config engine order.command).2.Brief := by
  have agrees := preview_agrees config valid order
  cases taken : (applyCommand config engine order.command).2.accepted with
  | true => exact Nat.lt_of_le_of_lt (agrees.2 taken).2 order.quantity.toNat_lt
  | false =>
    rcases applyCommand_cases config valid order.command with
      ⟨reason, rejected⟩ | ⟨after, events, applied, _⟩
    · rw [rejected]
      exact Nat.two_pow_pos 32
    · rw [applied] at taken
      cases taken

/-- The budget is checked against the very answer that the order would get. -/
theorem ensureNewOrderBudget_eq (valid : ctx.engine.Valid) (order : NewOrder) :
    ensureNewOrderBudget config ctx.engine order ctx.out limit =
      if ctx.out.length + (Request.newOrder order).budget config ctx.engine ≤ limit then .ok
      else .outputLimitExceeded := by
  have required : (if (previewOrder config order ctx.engine).accepted then
        addSaturating ackFrameBytes
          (mulSaturating (previewOrder config order ctx.engine).fillCount fillFrameBytes)
      else rejectFrameBytes) = (Request.newOrder order).budget config ctx.engine := by
    obtain ⟨accepted, counts⟩ := preview_agrees config valid order
    have brief := newOrder_brief valid config order
    have small := wire_responses_le brief order.orderId
    rw [Request.budget, Request.serve]
    rw [wire_responses_length] at small ⊢
    rw [accepted]
    cases taken : (applyCommand config ctx.engine order.command).2.accepted with
    | false => rfl
    | true =>
      obtain ⟨fills, few⟩ := counts taken
      simp only [taken, if_true] at small ⊢
      have top : (2 : Nat) ^ 38 ≤ sizeMax := by decide
      rw [fills, mulSaturating_eq (by omega), addSaturating_eq (by omega)]
  rw [ensureNewOrderBudget]
  show (if hasSpace ctx.out.length (if (previewOrder config order ctx.engine).accepted then
      addSaturating ackFrameBytes
        (mulSaturating (previewOrder config order ctx.engine).fillCount fillFrameBytes)
    else rejectFrameBytes) limit then _ else _) = _
  rw [required]
  by_cases fits : ctx.out.length + (Request.newOrder order).budget config ctx.engine ≤ limit
  · rw [hasSpace_iff.mpr fits, if_pos fits]
    rfl
  · rw [hasSpace_false_iff.mpr (Nat.lt_of_not_le fits), if_neg fits]
    rfl

/-- What a request makes of the session: a full answer if there is room for its budget. Else
the session closes, and the frame has done nothing unless the call was without a bound. -/
def Request.outcome (config : RiskConfig) (limit : Nat) (ctx : FrameContext) (request : Request) :
    FrameContext × SessionStatus :=
  if ctx.out.length + request.budget config ctx.engine ≤ limit then
    ({ ctx with
        engine := (request.serve config ctx.engine).1
        out := ctx.out ++ wire (request.serve config ctx.engine).2 }, .ok)
  else (⟨request.overrun config ctx.engine limit, true, ctx.out⟩, .outputLimitExceeded)

theorem handleNewOrder_eq (valid : ctx.engine.Valid) {order : NewOrder}
    (decoded : decodeNewOrder frame = .ok order) :
    handleNewOrder config limit ctx frame = (Request.newOrder order).outcome config limit ctx := by
  have called : (if order.type = .market then
      OrderGateway.newMarket config ctx.engine order.symbol order.orderId order.side order.quantity
    else OrderGateway.newLimit config ctx.engine order.symbol order.orderId order.side order.price
      order.quantity order.tif) = applyCommand config ctx.engine order.command := by
    rw [NewOrder.command]
    split <;> rfl
  have brief := newOrder_brief valid config order
  simp only [handleNewOrder, decoded, called, ensureNewOrderBudget_eq valid]
  rw [emitOrClose_eq brief]
  simp only [Request.outcome, Request.overrun, Request.budget, Request.serve]
  by_cases fits : ctx.out.length + (wire ((applyCommand config ctx.engine order.command).2.responses
      order.orderId)).length ≤ limit
  · simp [fits]
  · by_cases unbounded : limit = sizeMax
    · simp [unbounded]
    · simp [fits, unbounded, closeForOutputLimit, closeSession]

/-- A cancel trades nothing, so an acknowledgement or a reject is all its answer. -/
theorem cancel_answer {engine : MatchingEngine} (valid : engine.Valid) (config : RiskConfig)
    (symbol : SymbolId) (id : OrderId) :
    let result := (applyCommand config engine (.cancel symbol id)).2
    result.Brief ∧ (wire (result.responses id)).length ≤ max ackFrameBytes rejectFrameBytes := by
  have untraded : (applyCommand config engine (.cancel symbol id)).2.events.countP
      EngineEvent.isTrade = 0 := by
    rcases applyCommand_cases config valid (.cancel symbol id) with
      ⟨reason, rejected⟩ | ⟨after, events, applied, allowed, agrees⟩
    · rw [rejected]
      rfl
    · have targets : (Command.cancel symbol id).target = some (symbol, .cancel id) := rfl
      obtain ⟨book, known, admitted⟩ := Market.verdict_known targets allowed
      have counted := Market.apply_count targets known admitted
      rw [← agrees.answer] at counted
      rw [applied]
      exact counted
  constructor
  · rw [GatewayResult.Brief, untraded]
    exact Nat.two_pow_pos 32
  · rw [wire_responses_length, untraded, Nat.zero_mul, Nat.add_zero]
    split
    · exact Nat.le_max_left _ _
    · exact Nat.le_max_right _ _

theorem handleCancelOrder_eq (valid : ctx.engine.Valid) (config : RiskConfig) {order : CancelOrder}
    (decoded : decodeCancelOrder frame = .ok order) :
    handleCancelOrder limit ctx frame = (Request.cancelOrder order).outcome config limit ctx := by
  obtain ⟨brief, covered⟩ := cancel_answer valid config order.symbol order.orderId
  have called : OrderGateway.cancel ctx.engine order.symbol order.orderId =
    applyCommand config ctx.engine (.cancel order.symbol order.orderId) := rfl
  simp only [handleCancelOrder, decoded, called, Request.outcome, Request.overrun, Request.budget,
    Request.serve]
  by_cases fits : ctx.out.length + max ackFrameBytes rejectFrameBytes ≤ limit
  · rw [emitOrClose_eq brief, if_pos (Nat.le_trans (Nat.add_le_add_left covered _) fits)]
    simp only [hasSpace_iff.mpr fits, fits, if_true, Bool.not_true, Bool.false_eq_true, if_false]
  · simp only [hasSpace_false_iff.mpr (Nat.lt_of_not_le fits), fits, if_false, Bool.not_false,
      if_true, closeForOutputLimit, closeSession]

theorem handleHeartbeat_eq (config : RiskConfig) {beat : Heartbeat}
    (decoded : decodeHeartbeat frame = .ok beat) :
    handleHeartbeat limit ctx frame = (Request.heartbeat beat).outcome config limit ctx := by
  have encoded : ∀ msg : HeartbeatAck, msg.encode.length = heartbeatAckFrameBytes :=
    HeartbeatAck.encode_length
  simp only [handleHeartbeat, decoded, Session.append_eq, encoded, Request.outcome, Request.budget,
    Request.overrun, Request.serve]
  by_cases fits : ctx.out.length + heartbeatAckFrameBytes ≤ limit
  · simp [hasSpace_iff.mpr fits, fits, wire, Response.encode]
  · simp [hasSpace_false_iff.mpr (Nat.lt_of_not_le fits), fits, closeForOutputLimit, closeSession]

/-- A frame with a request. -/
theorem process_some (valid : ctx.engine.Valid) {request : Request}
    (found : request? frame = some request) :
    processFrame config limit ctx frame = request.outcome config limit ctx := by
  unfold request? at found
  unfold processFrame
  cases read : decodeHeader frame with
  | error reason =>
    rw [read] at found
    cases found
  | ok header =>
    simp only [read] at found ⊢
    cases type : header.type with
    | newOrder =>
      simp only [type] at found ⊢
      cases decoded : decodeNewOrder frame with
      | error reason => simp [decoded, Except.toOption] at found
      | ok order =>
        obtain rfl : Request.newOrder order = request := by
          simpa [decoded, Except.toOption] using found
        exact handleNewOrder_eq valid decoded
    | cancelOrder =>
      simp only [type] at found ⊢
      cases decoded : decodeCancelOrder frame with
      | error reason => simp [decoded, Except.toOption] at found
      | ok order =>
        obtain rfl : Request.cancelOrder order = request := by
          simpa [decoded, Except.toOption] using found
        exact handleCancelOrder_eq valid config decoded
    | heartbeat =>
      simp only [type] at found ⊢
      cases decoded : decodeHeartbeat frame with
      | error reason => simp [decoded, Except.toOption] at found
      | ok beat =>
        obtain rfl : Request.heartbeat beat = request := by
          simpa [decoded, Except.toOption] using found
        exact handleHeartbeat_eq config decoded
    | _ => simp [type] at found

end Process

end Qsl
