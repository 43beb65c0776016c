import Qsl.Reassembly
import Qsl.SessionFrames

namespace Qsl

open List
open Protocol Reassembly

namespace Session

/-- Where the first frame of the input buffer ends. -/
def front (bytes : List UInt8) : Front :=
  if bytes.length < headerSize then .wait
  else
    match decodeHeader bytes with
    | .error _ => .bad
    | .ok header =>
      if bytes.length < headerSize + header.bodyLen then .wait
      else .frame (headerSize + header.bodyLen)

/-- The frame ends the session: an undecodable body or an unexpected message type. -/
def closes (frame : List UInt8) : Bool := (request? frame).isNone

theorem front_frame {bytes : List UInt8} {size : Nat} (read : front bytes = .frame size) :
    ∃ header, decodeHeader bytes = .ok header ∧ size = headerSize + header.bodyLen ∧
      size ≤ bytes.length := by
  unfold front at read
  split at read
  · cases read
  · split at read
    · cases read
    · split at read
      · cases read
      · rename_i header decoded whole
        cases read
        exact ⟨header, decoded, rfl, Nat.le_of_not_lt whole⟩

/-- The header decides, and it is read from the frame itself. -/
theorem reads : Reads front where
  idle := rfl
  within := by
    intro bytes size read
    obtain ⟨header, _, rfl, within⟩ := front_frame read
    exact ⟨Nat.add_pos_left (by decide) _, within⟩
  framed := by
    intro bytes size read more
    obtain ⟨header, decoded, rfl, within⟩ := front_frame read
    have taken : (bytes.take (headerSize + header.bodyLen)).length = headerSize + header.bodyLen := by
      rw [length_take, Nat.min_eq_left within]
    have long : headerSize + header.bodyLen ≤
        (bytes.take (headerSize + header.bodyLen) ++ more).length := by
      rw [length_append, taken]
      omega
    have same : (bytes.take (headerSize + header.bodyLen) ++ more).take headerSize =
        bytes.take headerSize := by
      rw [take_append_of_le_length (by omega), take_take,
        Nat.min_eq_left (Nat.le_add_right _ _)]
    have again := decodeHeader_congr (by omega) (by omega) same
    unfold front
    rw [if_neg (by omega), again, decoded]
    exact if_neg (Nat.not_lt.mpr long)
  stuck := by
    intro bytes read more
    unfold front at read
    split at read
    · cases read
    · rename_i long
      have same : (bytes ++ more).take headerSize = bytes.take headerSize :=
        take_append_of_le_length (Nat.le_of_not_lt long)
      have longer : headerSize ≤ (bytes ++ more).length := by
        rw [length_append]
        omega
      have again := decodeHeader_congr longer (Nat.le_of_not_lt long) same
      unfold front
      rw [if_neg (Nat.not_lt.mpr longer), again]
      split at read
      · rfl
      · split at read <;> cases read

variable {storage : Storage} (config : RiskConfig) (limit : Nat)

/-- The loop of `on_bytes` by what the buffer starts with. -/
theorem onBytesStep_eq (inbuf : List UInt8) (intake : Intake) (served : intake.status = .ok)
    (reading : intake.ctx.loggedOut = false) :
    onBytesStep config limit inbuf intake =
      match front (inbuf.drop intake.consumed) with
      | .wait => none
      | .bad => some { intake with ctx := { intake.ctx with loggedOut := true } }
      | .frame size =>
        let (ctx, status) := processFrame config limit intake.ctx
          ((inbuf.drop intake.consumed).take size)
        if status ≠ .ok then some { intake with ctx := ctx, status := status }
        else some { intake with ctx := ctx, consumed := intake.consumed + size } := by
  unfold onBytesStep front
  rw [if_neg (by simp [served, reading])]
  simp only
  split
  · rfl
  · cases decodeHeader (inbuf.drop intake.consumed) with
    | error reason => rfl
    | ok header =>
      simp only
      split <;> rfl

/-- Once the session is closed or a frame failed, the loop is over. -/
theorem onBytesStep_over {inbuf : List UInt8} {intake : Intake}
    (halted : intake.status ≠ .ok ∨ intake.ctx.loggedOut = true) :
    onBytesStep config limit inbuf intake = none := if_pos halted

/-- Frames one after the other, up to the first that finds no room. -/
def serveFrames : FrameContext → List (List UInt8) → Intake
  | ctx, [] => ⟨ctx, 0, .ok⟩
  | ctx, frame :: frames =>
    let (next, status) := processFrame config limit ctx frame
    if status ≠ .ok then ⟨next, 0, status⟩
    else
      let later := serveFrames next frames
      { later with consumed := frame.length + later.consumed }

end Session

theorem Request.serve_sound {storage : Storage} {engine : MatchingEngine}
    (sound : engine.Sound storage) (config : RiskConfig) (request : Request) :
    (request.serve config engine).1.Sound storage := by
  cases request with
  | newOrder order => exact (sound.applyCommand config order.command).1
  | cancelOrder order => exact (sound.applyCommand config (.cancel order.symbol order.orderId)).1
  | heartbeat beat => exact sound

namespace Session

variable {storage : Storage} {config : RiskConfig} {limit : Nat}

/-- The three ways a frame goes: it closes the session, it is served, or it finds no room. -/
theorem process_cases (config : RiskConfig) (limit : Nat) {ctx : FrameContext}
    (sound : ctx.engine.Sound storage) (frame : List UInt8) :
    (closes frame = true ∧
        processFrame config limit ctx frame = ({ ctx with loggedOut := true }, .ok)) ∨
      ∃ request, request? frame = some request ∧ closes frame = false ∧
        (ctx.out.length + request.budget config ctx.engine ≤ limit ∧
            processFrame config limit ctx frame =
              ({ ctx with
                  engine := (request.serve config ctx.engine).1
                  out := ctx.out ++ wire (request.serve config ctx.engine).2 }, .ok) ∨
          limit < ctx.out.length + request.budget config ctx.engine ∧
            processFrame config limit ctx frame =
              (⟨request.overrun config ctx.engine limit, true, ctx.out⟩, .outputLimitExceeded)) := by
  cases found : request? frame with
  | none => exact Or.inl ⟨by rw [closes, found]; rfl, process_none found⟩
  | some request =>
    refine Or.inr ⟨request, rfl, by rw [closes, found]; rfl, ?_⟩
    rw [process_some sound.valid found, Request.outcome]
    by_cases fits : ctx.out.length + request.budget config ctx.engine ≤ limit
    · exact Or.inl ⟨fits, if_pos fits⟩
    · exact Or.inr ⟨Nat.lt_of_not_le fits, if_neg fits⟩

/-- The loop serves the frames that the buffer decomposes into. -/
theorem run_onBytesStep {inbuf : List UInt8} {intake : Intake} (served : intake.status = .ok)
    (reading : intake.ctx.loggedOut = false) (sound : intake.ctx.engine.Sound storage) {bound : Nat}
    (enough : (inbuf.drop intake.consumed).length < bound) :
    WhileLoop.run (onBytesStep config limit inbuf) bound intake =
      let parse := decompose front closes (inbuf.drop intake.consumed)
      let final := serveFrames config limit intake.ctx parse.frames
      ⟨{ final.ctx with loggedOut := final.ctx.loggedOut || parse.closed },
        intake.consumed + final.consumed, final.status⟩ := by
  induction bound generalizing intake with
  | zero => omega
  | succ bound ih =>
    obtain ⟨⟨engine, loggedOut, out⟩, consumed, status⟩ := intake
    simp only at served reading sound enough
    subst served reading
    have taken := onBytesStep_eq config limit inbuf ⟨⟨engine, false, out⟩, consumed, .ok⟩ rfl rfl
    simp only at taken ⊢
    rw [decompose_eq reads]
    cases read : front (inbuf.drop consumed) with
    | wait =>
      rw [read] at taken
      rw [WhileLoop.run_stop _ _ _ taken]
      rfl
    | bad =>
      rw [read] at taken
      rw [WhileLoop.run_step _ _ _ _ taken,
        WhileLoop.run_stop _ _ _ (onBytesStep_over config limit (Or.inr rfl))]
      rfl
    | frame size =>
      obtain ⟨positive, within⟩ := reads.within _ _ read
      have length : ((inbuf.drop consumed).take size).length = size := by
        rw [length_take, Nat.min_eq_left within]
      rw [read] at taken
      simp only at taken ⊢
      have ways := @process_cases storage config limit ⟨engine, false, out⟩ sound
        ((inbuf.drop consumed).take size)
      rcases ways with ⟨ends, done⟩ | ⟨request, found, goes, ⟨fits, done⟩ | ⟨full, done⟩⟩
      · -- the frame closes the session
        rw [done] at taken
        rw [WhileLoop.run_step _ _ _ _ taken,
          WhileLoop.run_stop _ _ _ (onBytesStep_over config limit (Or.inr rfl))]
        simp [ends, serveFrames, done, length]
      · rw [done] at taken
        rw [WhileLoop.run_step _ _ _ _ taken]
        have onward : inbuf.drop (consumed + size) = (inbuf.drop consumed).drop size :=
          (drop_drop ..).symm
        have shorter : (inbuf.drop (consumed + size)).length < bound := by
          rw [onward, length_drop]
          omega
        refine (ih rfl rfl (request.serve_sound sound config) shorter).trans ?_
        rw [onward]
        simp only [goes, serveFrames, done, length, Nat.add_assoc, Bool.false_eq_true, if_false,
          ne_eq, not_true_eq_false]
      · rw [done] at taken
        rw [WhileLoop.run_step _ _ _ _ taken,
          WhileLoop.run_stop _ _ _ (onBytesStep_over config limit (Or.inr rfl))]
        simp [goes, serveFrames, done]

/-- A call on an open session serves the frames that are now whole. -/
theorem onBytes_eq {session : Session} (reading : session.loggedOut = false)
    {engine : MatchingEngine} (sound : engine.Sound storage) (input out : List UInt8) :
    session.onBytes config engine input out limit =
      let parse := decompose front closes (session.inbuf ++ input)
      let final := serveFrames config limit ⟨engine, false, out⟩ parse.frames
      ⟨final.ctx.engine, ⟨(session.inbuf ++ input).drop final.consumed,
        final.ctx.loggedOut || parse.closed⟩, final.ctx.out, final.status⟩ := by
  rw [onBytes, reading, if_neg Bool.false_ne_true]
  have looped : WhileLoop.run (onBytesStep config limit (session.inbuf ++ input))
      ((session.inbuf ++ input).length + 1) ⟨⟨engine, false, out⟩, 0, .ok⟩ = _ :=
    run_onBytesStep rfl rfl sound (Nat.lt_succ_self _)
  simp only [looped, drop_zero, Nat.zero_add]

end Session

end Qsl
