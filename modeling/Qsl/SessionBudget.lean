import Qsl.SessionIntake

namespace Qsl

open List
open Protocol Reassembly

/-- No vector of bytes is longer (`max_size`). -/
def vectorMaxSize : Nat := 2 ^ 63 - 1

namespace Session

variable {storage : Storage} {config : RiskConfig} {limit : Nat}

theorem budget_le {engine : MatchingEngine} (sound : engine.Sound storage) (config : RiskConfig)
    (request : Request) : request.budget config engine ≤ 2 ^ 38 := by
  cases request with
  | newOrder order => exact wire_responses_le (newOrder_brief sound.valid config order) order.orderId
  | cancelOrder order =>
    show max ackFrameBytes rejectFrameBytes ≤ 2 ^ 38
    decide
  | heartbeat beat =>
    show heartbeatAckFrameBytes ≤ 2 ^ 38
    decide

/-- The answer is within the budget. -/
theorem serve_length_le {engine : MatchingEngine} (sound : engine.Sound storage)
    (config : RiskConfig) (request : Request) :
    (wire (request.serve config engine).2).length ≤ request.budget config engine := by
  cases request with
  | newOrder order => exact Nat.le_refl _
  | cancelOrder order => exact (cancel_answer sound.valid config order.symbol order.orderId).2
  | heartbeat beat =>
    show (wire [_]).length ≤ _
    simp only [wire, flatMap_cons, flatMap_nil, append_nil]
    exact Nat.le_of_eq (HeartbeatAck.encode_length _)

/-- A frame that is served grows the output by whole responses within the limit, and a call
without a bound would have done the same. -/
theorem process_served {ctx : FrameContext} (sound : ctx.engine.Sound storage)
    (room : ctx.out.length ≤ limit) {frame : List UInt8}
    (served : (processFrame config limit ctx frame).2 = .ok) :
    let next := (processFrame config limit ctx frame).1
    next.engine.Sound storage ∧ next.out.length ≤ limit ∧
      (∃ responses, next.out = ctx.out ++ wire responses) ∧
      (closes frame = false → next.loggedOut = ctx.loggedOut) ∧
      (limit ≤ sizeMax → processFrame config sizeMax ctx frame = (next, .ok)) := by
  rcases process_cases config limit sound frame with
    ⟨ends, done⟩ | ⟨request, found, _, ⟨fits, done⟩ | ⟨_, done⟩⟩
  · rw [done]
    refine ⟨sound, room, ⟨[], (append_nil _).symm⟩, ?_, ?_⟩
    · intro open'
      rw [ends] at open'
      cases open'
    · intro limited
      exact process_none (Option.isNone_iff_eq_none.mp ends)
  · have covered := serve_length_le sound config request
    rw [done]
    refine ⟨request.serve_sound sound config, ?_, ⟨_, rfl⟩, fun _ => rfl, ?_⟩
    · show (ctx.out ++ wire (request.serve config ctx.engine).2).length ≤ limit
      rw [length_append]
      omega
    · intro limited
      rw [process_some sound.valid found, Request.outcome, if_pos (Nat.le_trans fits limited)]
  · rw [done] at served
    cases served

/-- A frame that finds no room leaves the output, closes the session, and has not reached the
engine unless the call was without a bound. -/
theorem process_refused {ctx : FrameContext} (sound : ctx.engine.Sound storage)
    {frame : List UInt8} (refused : (processFrame config limit ctx frame).2 ≠ .ok) :
    let next := (processFrame config limit ctx frame).1
    (∃ request, request? frame = some request ∧
        limit < ctx.out.length + request.budget config ctx.engine) ∧
      next.loggedOut = true ∧ next.out = ctx.out ∧ (limit ≠ sizeMax → next.engine = ctx.engine) := by
  rcases process_cases config limit sound frame with
    ⟨_, done⟩ | ⟨request, found, _, ⟨_, done⟩ | ⟨full, done⟩⟩
  · rw [done] at refused
    exact absurd rfl refused
  · rw [done] at refused
    exact absurd rfl refused
  · rw [done]
    refine ⟨⟨request, found, full⟩, rfl, rfl, ?_⟩
    intro bounded
    cases request with
    | newOrder order => exact if_neg bounded
    | _ => rfl

theorem serveFrames_served {ctx : FrameContext} {frame : List UInt8}
    (served : (processFrame config limit ctx frame).2 = .ok) (frames : List (List UInt8)) :
    serveFrames config limit ctx (frame :: frames) =
      let later := serveFrames config limit (processFrame config limit ctx frame).1 frames
      { later with consumed := frame.length + later.consumed } := by
  simp only [serveFrames, served, ne_eq, not_true_eq_false, if_false]

theorem serveFrames_refused {ctx : FrameContext} {frame : List UInt8}
    (refused : (processFrame config limit ctx frame).2 ≠ .ok) (frames : List (List UInt8)) :
    serveFrames config limit ctx (frame :: frames) =
      ⟨(processFrame config limit ctx frame).1, 0, (processFrame config limit ctx frame).2⟩ := by
  simp only [serveFrames, refused, ne_eq, not_false_eq_true, if_true]

section

variable (ctx : FrameContext) (sound : ctx.engine.Sound storage) (room : ctx.out.length ≤ limit)

include ctx sound room

/-- Whatever the frames, the output grows by whole responses and keeps to the limit. -/
theorem serveFrames_out (frames : List (List UInt8)) :
    let final := serveFrames config limit ctx frames
    final.ctx.out.length ≤ limit ∧ ∃ responses, final.ctx.out = ctx.out ++ wire responses := by
  induction frames generalizing ctx with
  | nil => exact ⟨room, [], (append_nil _).symm⟩
  | cons frame frames ih =>
    by_cases served : (processFrame config limit ctx frame).2 = .ok
    · obtain ⟨kept, fits, ⟨first, grown⟩, _⟩ := process_served sound room served
      obtain ⟨within, later, answered⟩ := ih _ kept fits
      rw [serveFrames_served served]
      refine ⟨within, first ++ later, ?_⟩
      rw [wire, List.flatMap_append, ← append_assoc]
      exact answered.trans (congrArg (· ++ wire later) grown)
    · obtain ⟨_, _, same, _⟩ := process_refused sound served
      rw [serveFrames_refused served]
      simp only [same]
      exact ⟨room, [], (append_nil _).symm⟩

/-- Frames that are all served are consumed whole, as without a bound. -/
theorem serveFrames_ok (limited : limit ≤ sizeMax) {frames : List (List UInt8)}
    (served : (serveFrames config limit ctx frames).status = .ok) :
    serveFrames config sizeMax ctx frames = serveFrames config limit ctx frames ∧
      (serveFrames config limit ctx frames).consumed = frames.flatten.length ∧
      ((∀ frame ∈ frames, closes frame = false) →
        (serveFrames config limit ctx frames).ctx.loggedOut = ctx.loggedOut) := by
  induction frames generalizing ctx with
  | nil => exact ⟨rfl, rfl, fun _ => rfl⟩
  | cons frame frames ih =>
    by_cases first : (processFrame config limit ctx frame).2 = .ok
    · obtain ⟨kept, fits, _, flag, widened⟩ := process_served sound room first
      have wide := widened limited
      rw [serveFrames_served first] at served ⊢
      obtain ⟨same, consumed, open'⟩ := ih _ kept fits served
      rw [serveFrames_served (by rw [wide]), wide, same]
      refine ⟨rfl, ?_, ?_⟩
      · rw [flatten_cons, length_append, ← consumed]
      · intro goes
        rw [← flag (goes frame mem_cons_self)]
        exact open' (fun other member => goes other (mem_cons_of_mem _ member))
    · rw [serveFrames_refused first] at served
      exact absurd served first

/-- Where the frames stop short, the state is the one that the frames before had left, and it has no
room for the next. -/
theorem serveFrames_stopped {frames : List (List UInt8)} (held : limit = sizeMax →
      (serveFrames config limit ctx frames).ctx.out.length ≤ vectorMaxSize)
    (stopped : (serveFrames config limit ctx frames).status ≠ .ok) :
    ∃ before frame after, frames = before ++ frame :: after ∧
      (serveFrames config limit ctx before).status = .ok ∧
      (serveFrames config limit ctx frames).ctx =
        { (serveFrames config limit ctx before).ctx with loggedOut := true } ∧
      (serveFrames config limit ctx frames).consumed =
        (serveFrames config limit ctx before).consumed ∧
      (serveFrames config limit ctx before).ctx.engine.Sound storage ∧
      ∃ request, request? frame = some request ∧
        let left := (serveFrames config limit ctx before).ctx
        limit < left.out.length + request.budget config left.engine := by
  induction frames generalizing ctx with
  | nil => exact absurd rfl stopped
  | cons frame frames ih =>
    by_cases served : (processFrame config limit ctx frame).2 = .ok
    · obtain ⟨kept, fits, _⟩ := process_served sound room served
      have whole := serveFrames_served served frames
      rw [whole] at held stopped
      obtain ⟨before, last, after, split, done, same, consumed, full⟩ :=
        ih _ kept fits held stopped
      refine ⟨frame :: before, last, after, by rw [split]; rfl, ?_⟩
      rw [whole, serveFrames_served served]
      exact ⟨done, same, congrArg (frame.length + ·) consumed, full⟩
    · obtain ⟨⟨request, found, full⟩, closed, same, untouched⟩ := process_refused sound served
      rw [serveFrames_refused served] at held ⊢
      have bounded : limit ≠ sizeMax := by
        intro unbounded
        have short := held unbounded
        simp only [same] at short
        have small := budget_le sound config request
        have top : vectorMaxSize + 2 ^ 38 ≤ sizeMax := by decide
        omega
      refine ⟨[], frame, frames, rfl, rfl, ?_, rfl, sound, request, found, full⟩
      simp only [serveFrames, ← same, ← untouched bounded, ← closed]

end

/-- The answer to one request always fits a call without a bound. -/
theorem process_alone {engine : MatchingEngine} (sound : engine.Sound storage)
    {frame : List UInt8} {request : Request} (found : request? frame = some request) :
    processFrame config sizeMax ⟨engine, false, []⟩ frame =
      (⟨(request.serve config engine).1, false, wire (request.serve config engine).2⟩, .ok) := by
  have small := budget_le sound config request
  have top : (2 : Nat) ^ 38 ≤ sizeMax := by decide
  have fits : ([] : List UInt8).length + request.budget config engine ≤ sizeMax := by
    rw [length_nil]
    omega
  rw [process_some sound.valid found, Request.outcome, if_pos fits]
  rfl

section

variable {session : Session} (reading : session.loggedOut = false) {engine : MatchingEngine}
  (sound : engine.Sound storage) {input out : List UInt8} (limited : limit ≤ sizeMax)
  (room : out.length ≤ limit)

include reading sound limited room

/-- A call that served all its frames is a call without a bound. -/
theorem onBytes_served (served : (session.onBytes config engine input out limit).status = .ok) :
    session.onBytes config engine input out sizeMax =
      session.onBytes config engine input out limit := by
  rw [onBytes_eq reading sound] at served ⊢
  simp only [onBytes_eq reading sound,
    (serveFrames_ok ⟨engine, false, out⟩ sound room limited served).1]

end

end Session

end Qsl
