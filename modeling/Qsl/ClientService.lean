import Qsl.ResponseStream
import Qsl.SessionStreams

/- What servicing a readiness event does to a client and to the kernel's end of its socket. -/
namespace Qsl

open List Option
open StreamSocket ResponseStream

variable {engine : MatchingEngine} {events : EventMask}

namespace Session

open Reassembly

/-- What a session would answer to more bytes, frame by frame and without a bound. -/
def owed (config : RiskConfig) (session : Session) (engine : MatchingEngine)
    (bytes : List UInt8) : List UInt8 :=
  (Machine.run (answerFrame config) engine
    (decompose front closes (session.inbuf ++ bytes)).frames).2.flatten

/-- What a call has answered it no longer owes. -/
theorem onBytes_owed {storage : Storage} {config : RiskConfig} {limit : Nat} {session : Session}
    (sound : engine.Sound storage) {out : List UInt8} (room : out.length ≤ limit)
    (limited : limit ≤ sizeMax) (first second : List UInt8)
    (reading : (session.onBytes config engine first out limit).session.loggedOut = false) :
    let reply := session.onBytes config engine first out limit
    reply.out ++ reply.session.owed config reply.engine second =
      out ++ session.owed config engine (first ++ second) := by
  obtain ⟨before, served, goes, rest⟩ := onBytes_open sound first room limited reading
  have whole := @decompose_append _ front closes reads (session.inbuf ++ first) second
  simp only [goes, Bool.false_eq_true, if_false, append_assoc] at whole
  simp only [owed, rest, whole, Machine.run_append, flatten_append]
  rw [onBytes_eq before sound] at served ⊢
  simp only [serveFrames_answers ⟨engine, false, out⟩ sound room served, append_assoc]

end Session

variable {storage : Storage} {config : RiskConfig} {options : EpollServerOptions}

/-- The client's responses on their way. -/
def ClientIo.stream (io : ClientIo) : ResponseStream :=
  ⟨io.engine, io.client, io.kernel.socket.accepted⟩

/-- The client in the course of a connection: the session was given what was read. -/
def ClientIo.Reached (storage : Storage) (config : RiskConfig) (options : EpollServerOptions)
    (io : ClientIo) : Prop :=
  ∃ produced,
    ResponseStream.Reached storage config options io.stream io.kernel.socket.taken produced

/-- What waits to be sent, and what the input that is queued would add to it. -/
def ClientIo.due (config : RiskConfig) (io : ClientIo) : Nat :=
  io.client.pending + (io.client.session.owed config io.engine io.kernel.socket.queue).length

/-- What sending leaves alone. -/
structure Sending (before after : ClientIo) : Prop where
  works : before.kernel.Works → after.kernel.Works
  engine : after.engine = before.engine
  session : after.client.session = before.client.session
  inputClosed : after.client.inputClosed = before.client.inputClosed
  pending : after.client.pending ≤ before.client.pending
  taken : after.kernel.socket.taken = before.kernel.socket.taken
  settled : before.kernel.socket.Settled after.kernel.socket

theorem Sending.refl (io : ClientIo) : Sending io io :=
  ⟨id, rfl, rfl, rfl, Nat.le_refl _, rfl, Socket.Settled.refl _⟩

theorem Sending.trans {first second third : ClientIo} (early : Sending first second)
    (late : Sending second third) : Sending first third :=
  ⟨late.works ∘ early.works, late.engine.trans early.engine, late.session.trans early.session,
    late.inputClosed.trans early.inputClosed, late.pending.trans early.pending,
    late.taken.trans early.taken, early.settled.trans late.settled⟩

theorem Sending.due {before after : ClientIo} (sending : Sending before after)
    (finished : before.kernel.socket.finished = true) : after.due config ≤ before.due config := by
  have arrived := (sending.settled finished).2.1
  rw [Socket.arrived, Socket.arrived, sending.taken] at arrived
  rw [ClientIo.due, ClientIo.due, sending.session, sending.engine,
    append_cancel_left arrived]
  exact Nat.add_le_add_right sending.pending _

/-- The ways an iteration of `send_some` goes. -/
theorem sendSomeStep_cases {loop next : SendLoop} (taken : sendSomeStep loop = some next) :
    loop.result = none ∧ loop.client.sent < loop.client.outbuf.length ∧
      (loop.kernel.script ≠ [] ∧
          next = ⟨⟨loop.kernel.ready, loop.kernel.script.tail⟩, loop.client, none⟩ ∨
        loop.kernel.turn.fails = true ∧
          next = ⟨⟨loop.kernel.ready, loop.kernel.script.tail⟩, loop.client, some false⟩ ∨
        next = ⟨⟨loop.kernel.ready, loop.kernel.script.tail⟩, loop.client, some true⟩ ∨
        ∃ n room, 0 < n ∧ n ≤ loop.client.outbuf.length - loop.client.sent ∧
          next =
            ⟨⟨{ loop.kernel.ready with
                  room := room
                  accepted := loop.kernel.ready.accepted ++
                    (loop.client.outbuf.drop loop.client.sent).take n },
                loop.kernel.script.tail⟩,
              { loop.client with sent := loop.client.sent + n }, none⟩) := by
  unfold sendSomeStep at taken
  cases running : loop.result with
  | some result =>
    rw [running] at taken
    cases taken
  | none =>
    by_cases left : loop.client.sent < loop.client.outbuf.length
    · refine ⟨rfl, left, ?_⟩
      have some : loop.client.outbuf.drop loop.client.sent ≠ [] := by
        rw [Ne, drop_eq_nil_iff]
        omega
      rw [running] at taken
      simp only [isSome_none, Bool.false_eq_true, if_false, left, if_true] at taken
      rcases loop.kernel.send_cases some with
        ⟨signal, done⟩ | ⟨fails, done⟩ | done | ⟨n, room, positive, within, done⟩
      · rw [done] at taken
        exact Or.inl ⟨loop.kernel.script_ne_nil signal, (Option.some.inj taken).symm⟩
      · rw [done] at taken
        exact Or.inr (Or.inl ⟨fails, (Option.some.inj taken).symm⟩)
      · rw [done] at taken
        exact Or.inr (Or.inr (Or.inl (Option.some.inj taken).symm))
      · rw [done] at taken
        rw [length_drop] at within
        simp only [sendNextChunk, positive, if_true] at taken
        exact Or.inr (Or.inr (Or.inr ⟨n, room, positive, within, (Option.some.inj taken).symm⟩))
    · rw [running] at taken
      simp only [isSome_none, Bool.false_eq_true, if_false, left] at taken
      cases taken

theorem sendSomeStep_none {loop : SendLoop} (ends : sendSomeStep loop = none)
    (running : loop.result = none) : ¬ loop.client.sent < loop.client.outbuf.length := by
  intro left
  unfold sendSomeStep at ends
  simp only [running, left, isSome_none, Bool.false_eq_true, if_false, if_true] at ends
  split at ends <;> cases ends

/-- The loop ends by itself. -/
theorem sendSome_ends (kernel : Kernel UInt8) (client : ClientState) :
    sendSomeStep (WhileLoop.run sendSomeStep (kernel.script.length + client.pending + 2)
      ⟨kernel, client, none⟩) = none := by
  refine WhileLoop.run_ends (fun loop => loop.kernel.script.length + loop.client.pending +
    if loop.result.isNone then 1 else 0) ?_ (Nat.lt_succ_self _)
  intro loop next taken
  obtain ⟨running, left, ⟨some, rfl⟩ | ⟨_, rfl⟩ | rfl | ⟨n, room, positive, within, rfl⟩⟩ :=
    sendSomeStep_cases taken
  · have shorter : loop.kernel.script.tail.length < loop.kernel.script.length := by
      have length := length_pos_iff.mpr some
      rw [length_tail]
      omega
    simp only [running, isNone_none, if_true]
    omega
  · simp only [running, isNone_none, isNone_some, length_tail, if_true,
      Bool.false_eq_true, if_false]
    omega
  · simp only [running, isNone_none, isNone_some, length_tail, if_true,
      Bool.false_eq_true, if_false]
    omega
  · simp only [running, isNone_none, length_tail, ClientState.pending, if_true]
    omega

/-- The variables of the loop as a client. -/
def SendLoop.io (engine : MatchingEngine) (loop : SendLoop) : ClientIo :=
  ⟨loop.kernel, engine, loop.client⟩

theorem sendSomeStep_sending {loop next : SendLoop} (taken : sendSomeStep loop = some next)
    (works : loop.kernel.Works) (reached : (loop.io engine).Reached storage config options) :
    (next.io engine).Reached storage config options ∧ Sending (loop.io engine) (next.io engine) ∧
      next.result ≠ some false := by
  obtain ⟨produced, reached⟩ := reached
  have read := loop.kernel.ready_taken
  have accepted := loop.kernel.ready_accepted
  have settled := loop.kernel.ready_settled
  obtain ⟨running, left, ⟨some, rfl⟩ | ⟨fails, _⟩ | rfl | ⟨n, room, positive, within, rfl⟩⟩ :=
    sendSomeStep_cases taken
  · refine ⟨⟨produced, ?_⟩,
      ⟨fun _ => works.tail, rfl, rfl, rfl, Nat.le_refl _, read, settled⟩, by simp⟩
    rw [SendLoop.io, ClientIo.stream, accepted, read]
    exact reached
  · cases works.turn.symm.trans fails
  · refine ⟨⟨produced, ?_⟩,
      ⟨fun _ => works.tail, rfl, rfl, rfl, Nat.le_refl _, read, settled⟩, by simp⟩
    rw [SendLoop.io, ClientIo.stream, accepted, read]
    exact reached
  · refine ⟨⟨produced, ?_⟩,
      ⟨fun _ => works.tail, rfl, rfl, rfl, Nat.sub_le_sub_left (Nat.le_add_right _ n) _, read,
        settled⟩, by simp⟩
    have sent := reached.sends n positive within
    rw [ResponseStream.send, sendNextChunk, if_pos positive] at sent
    rw [SendLoop.io, ClientIo.stream, accepted, read]
    exact sent

/-- What is sent was produced, nothing else changes, and no send fails. -/
theorem sendSome_sending {io : ClientIo} (works : io.kernel.Works)
    (reached : io.Reached storage config options) :
    let after := sendSome io.kernel io.client
    let next : ClientIo := ⟨after.1, io.engine, after.2.1⟩
    next.Reached storage config options ∧ Sending io next ∧ after.2.2 = true := by
  have kept := @WhileLoop.run_invariant _ sendSomeStep (fun loop =>
    (loop.io io.engine).Reached storage config options ∧ Sending io (loop.io io.engine) ∧
      loop.result ≠ some false) (by
        intro loop next taken holds
        obtain ⟨now, sending, result⟩ :=
          sendSomeStep_sending taken (holds.2.1.works works) holds.1
        exact ⟨now, holds.2.1.trans sending, result⟩)
    ⟨io.kernel, io.client, none⟩ ⟨reached, Sending.refl io, by simp⟩
    (io.kernel.script.length + io.client.pending + 2)
  have ends := sendSome_ends io.kernel io.client
  unfold sendSome
  generalize WhileLoop.run sendSomeStep (io.kernel.script.length + io.client.pending + 2)
    ⟨io.kernel, io.client, none⟩ = loop at kept ends
  obtain ⟨⟨produced, reached⟩, sending, result⟩ := kept
  simp only
  cases running : loop.result with
  | some ok =>
    cases ok with
    | true => exact ⟨⟨produced, reached⟩, sending, rfl⟩
    | false => exact absurd running result
  | none =>
    have all := sendSomeStep_none ends running
    exact ⟨⟨produced, reached.flushed all⟩,
      ⟨sending.works, sending.engine, sending.session, sending.inputClosed, Nat.zero_le _,
        sending.taken, sending.settled⟩, rfl⟩

/-- The ways an iteration of `read_available` goes. -/
theorem readAvailableStep_cases {peerHungUp : Bool} {loop next : ReadLoop}
    (taken : readAvailableStep config options peerHungUp loop = some next) :
    let ready := loop.io.kernel.ready
    let tail := loop.io.kernel.script.tail
    loop.result = none ∧
      (loop.io.kernel.script ≠ [] ∧
          next = ⟨⟨⟨ready, tail⟩, loop.io.engine, loop.io.client⟩, none⟩ ∨
        loop.io.kernel.turn.fails = true ∧
          next = ⟨⟨⟨ready, tail⟩, loop.io.engine, loop.io.client⟩, some true⟩ ∨
        ready.queue = [] ∧ ready.finished = true ∧
          next = ⟨⟨⟨ready, tail⟩, loop.io.engine, { loop.io.client with inputClosed := true }⟩,
            some false⟩ ∨
        ready.queue = [] ∧ next = ⟨⟨⟨ready, tail⟩, loop.io.engine, loop.io.client⟩, some false⟩ ∨
        ∃ bytes later, bytes ≠ [] ∧ ready.queue = bytes ++ later ∧
          let fed := applySessionInput config options loop.io.engine loop.io.client bytes
          next.io = ⟨⟨{ ready with taken := ready.taken ++ bytes, queue := later }, tail⟩,
            fed.1, fed.2.1⟩ ∧
          (fed.2.2 = .continue ↔ next.result = none)) := by
  unfold readAvailableStep at taken
  cases running : loop.result with
  | some result =>
    rw [running] at taken
    cases taken
  | none =>
    refine ⟨rfl, ?_⟩
    simp only [running, isSome_none, Bool.false_eq_true, if_false] at taken
    split at taken
    · rcases loop.io.kernel.read_cases (show 0 < readBufferSize by decide) with
        ⟨signal, done⟩ | ⟨fails, done⟩ | ⟨queue, finished, done⟩ | ⟨queue, done⟩ |
          ⟨bytes, later, some, queue, done⟩
      · rw [done] at taken
        exact Or.inl ⟨loop.io.kernel.script_ne_nil signal, (Option.some.inj taken).symm⟩
      · rw [done] at taken
        exact Or.inr (Or.inl ⟨fails, (Option.some.inj taken).symm⟩)
      · rw [done] at taken
        exact Or.inr (Or.inr (Or.inl ⟨queue, finished, (Option.some.inj taken).symm⟩))
      · rw [done] at taken
        exact Or.inr (Or.inr (Or.inr (Or.inl ⟨queue, (Option.some.inj taken).symm⟩)))
      · have positive : bytes.length > 0 := length_pos_iff.mpr some
        rw [done] at taken
        simp only [readOnce, if_pos positive] at taken
        refine Or.inr (Or.inr (Or.inr (Or.inr ⟨bytes, later, some, queue, ?_⟩)))
        split at taken
        · rename_i result
          rw [← Option.some.inj taken]
          exact ⟨rfl, fun _ => rfl, fun _ => result⟩
        · rename_i result
          rw [← Option.some.inj taken]
          exact ⟨rfl, by simp [result]⟩
        · rename_i result
          rw [← Option.some.inj taken]
          exact ⟨rfl, by simp [result]⟩
    · cases taken

/-- The loop ends by itself. -/
theorem readAvailable_ends (io : ClientIo) (peerHungUp : Bool) :
    readAvailableStep config options peerHungUp
      (WhileLoop.run (readAvailableStep config options peerHungUp) (io.kernel.work + 2)
        ⟨io, none⟩) = none := by
  refine WhileLoop.run_ends (fun loop => loop.io.kernel.work +
    if loop.result.isNone then 1 else 0) ?_ (Nat.lt_succ_self _)
  intro loop next taken
  obtain ⟨fewer, used⟩ := loop.io.kernel.work_ready
  obtain ⟨running, ⟨some, rfl⟩ | ⟨_, rfl⟩ | ⟨_, _, rfl⟩ | ⟨_, rfl⟩ |
    ⟨bytes, later, some, queue, same, _⟩⟩ := readAvailableStep_cases taken
  · simp only [running, isNone_none, if_true]
    have less := used some
    omega
  · simp only [running, isNone_none, isNone_some, if_true, Bool.false_eq_true,
      if_false]
    omega
  · simp only [running, isNone_none, isNone_some, if_true, Bool.false_eq_true,
      if_false]
    omega
  · simp only [running, isNone_none, isNone_some, if_true, Bool.false_eq_true,
      if_false]
    omega
  · have positive := length_pos_iff.mpr some
    have moved : next.io.kernel.work + bytes.length =
        (⟨loop.io.kernel.ready, loop.io.kernel.script.tail⟩ : Kernel UInt8).work := by
      rw [same]
      simp only [Kernel.work, queue, length_append]
      omega
    have flag : (if next.result.isNone then 1 else 0) ≤ 1 := by split <;> omega
    simp only [running, isNone_none, if_true]
    omega

/-- What the session answers to bytes that it is given was due before. -/
theorem applySessionInput_due (sound : engine.Sound storage) {client : ClientState}
    (room : client.pending ≤ hardOutputLimit options) (bytes later : List UInt8)
    (open' : (applySessionInput config options engine client bytes).2.1.session.loggedOut = false) :
    let fed := applySessionInput config options engine client bytes
    fed.2.1.pending + (fed.2.1.session.owed config fed.1 later).length =
      client.pending + (client.session.owed config engine (bytes ++ later)).length := by
  obtain ⟨engine_eq, session_eq, outbuf_eq, sent_eq, -⟩ :=
    applySessionInput_eq config options engine client bytes
  rw [session_eq] at open'
  have owed := congrArg List.length (Session.onBytes_owed sound
    (by rw [length_drop]; exact room) (hardOutputLimit_le options) bytes later open')
  rw [length_append, length_append, length_drop] at owed
  simp only [ClientState.pending, engine_eq, session_eq, outbuf_eq, sent_eq, Nat.sub_zero]
  exact owed

/-- What reading leaves: the session was given what was read, and the loop was left for a reason. -/
structure Reading (storage : Storage) (config : RiskConfig) (options : EpollServerOptions)
    (before : ClientIo) (loop : ReadLoop) : Prop where
  works : loop.io.kernel.Works
  reached : loop.io.Reached storage config options
  settled : before.kernel.socket.Settled loop.io.kernel.socket
  shut : loop.io.client.inputClosed = true → before.client.inputClosed = true ∨
    loop.io.kernel.socket.queue = [] ∧ loop.io.kernel.socket.finished = true
  stopped : loop.result.isSome = true → loop.io.client.session.loggedOut = true ∨
    loop.io.kernel.socket.queue = [] ∧ loop.result = some false
  due : before.kernel.socket.finished = true → loop.io.client.session.loggedOut = false →
    loop.io.due config ≤ before.due config

namespace Reading

variable {before : ClientIo} {peerHungUp : Bool} {loop next : ReadLoop}

section

variable (reading : Reading storage config options before loop)

include reading

/-- The peer's end stays as it is while nothing is read. -/
theorem shut_ready (closed : loop.io.client.inputClosed = true) :
    before.client.inputClosed = true ∨
      loop.io.kernel.ready.queue = [] ∧ loop.io.kernel.ready.finished = true := by
  rcases reading.shut closed with earlier | ⟨queue, finished⟩
  · exact Or.inl earlier
  · obtain ⟨still, same⟩ := Socket.advance_finished finished loop.io.kernel.turn
    exact Or.inr ⟨same.trans queue, still⟩

theorem due_ready (finished : before.kernel.socket.finished = true)
    (open' : loop.io.client.session.loggedOut = false) :
    loop.io.client.pending +
        (loop.io.client.session.owed config loop.io.engine loop.io.kernel.ready.queue).length ≤
      before.due config := by
  have same := (Socket.advance_finished (reading.settled finished).1 loop.io.kernel.turn).2
  rw [Kernel.ready, same]
  exact reading.due finished open'

theorem step (taken : readAvailableStep config options peerHungUp loop = some next) :
    Reading storage config options before next := by
  obtain ⟨produced, reached⟩ := reading.reached
  have read := loop.io.kernel.ready_taken
  have accepted := loop.io.kernel.ready_accepted
  have settled := reading.settled.trans loop.io.kernel.ready_settled
  have still : (⟨⟨loop.io.kernel.ready, loop.io.kernel.script.tail⟩, loop.io.engine,
      loop.io.client⟩ : ClientIo).Reached storage config options := by
    refine ⟨produced, ?_⟩
    rw [ClientIo.stream, accepted, read]
    exact reached
  have works {socket : Socket UInt8} :
      (⟨socket, loop.io.kernel.script.tail⟩ : Kernel UInt8).Works := reading.works.tail
  obtain ⟨running, ⟨_, rfl⟩ | ⟨fails, _⟩ | ⟨queue, finished, rfl⟩ | ⟨queue, rfl⟩ |
    ⟨bytes, later, some, queue, same, goes⟩⟩ := readAvailableStep_cases taken
  · exact ⟨works, still, settled, reading.shut_ready, nofun, reading.due_ready⟩
  · cases reading.works.turn.symm.trans fails
  · obtain ⟨produced, reached⟩ := still
    exact ⟨works, ⟨produced, reached.inputEnds⟩, settled, fun _ => Or.inr ⟨queue, finished⟩,
      fun _ => Or.inr ⟨queue, rfl⟩, reading.due_ready⟩
  · exact ⟨works, still, settled, reading.shut_ready, fun _ => Or.inr ⟨queue, rfl⟩,
      reading.due_ready⟩
  · refine ⟨?_, ?_, ?_, ?_, ?_, ?_⟩
    · rw [same]
      exact works
    · have fed := reached.input bytes
      rw [ClientIo.Reached, same, ClientIo.stream]
      simp only [accepted, read]
      exact ⟨_, fed⟩
    · rw [same]
      intro begun
      obtain ⟨ended, arrived, shorter⟩ := settled begun
      refine ⟨ended, ?_, List.IsSuffix.trans (queue ▸ suffix_append bytes later) shorter⟩
      rw [← arrived, Socket.arrived, Socket.arrived, queue, append_assoc]
    · intro closed
      rw [same] at closed
      have flag := (applySessionInput_eq config options loop.io.engine loop.io.client bytes).2.2.2.2
      rcases reading.shut_ready (flag.symm.trans closed) with earlier | ⟨none, _⟩
      · exact Or.inl earlier
      · rw [queue] at none
        exact absurd (append_eq_nil_iff.mp none).1 some
    · intro left
      refine Or.inl ?_
      by_contra open'
      rw [Bool.not_eq_true, same] at open'
      have onward := (reached.intact.input_open open').2.2.2.2
      rw [goes.mp onward] at left
      cases left
    · intro finished open'
      rw [same] at open'
      have intact := reached.intact
      have due := reading.due_ready finished (intact.input_open open').1
      have moved := applySessionInput_due intact.sound intact.pending_le bytes later open'
      rw [queue] at due
      rw [same]
      exact (Nat.le_of_eq moved).trans due

end

end Reading

section

variable {io : ClientIo} (works : io.kernel.Works) (reached : io.Reached storage config options)

include works reached

/-- Reading goes on until nothing is left or the client has too much to send. -/
theorem readAvailable_reading (peerHungUp : Bool) :
    let after := readAvailable config options io peerHungUp
    after.1.Reached storage config options ∧
      io.kernel.socket.Settled after.1.kernel.socket ∧
      (after.1.client.inputClosed = true → io.client.inputClosed = true ∨
        after.1.kernel.socket.queue = [] ∧ after.1.kernel.socket.finished = true) ∧
      (after.1.client.session.loggedOut = false → after.2 = false ∧
        (io.kernel.socket.finished = true → after.1.due config ≤ io.due config) ∧
        (after.1.kernel.socket.queue = [] ∨
          options.maxOutbufBytes.toNat ≤ after.1.client.pending)) := by
  have kept := @WhileLoop.run_invariant _ (readAvailableStep config options peerHungUp)
    (Reading storage config options io) (fun loop next taken reading => reading.step taken)
    ⟨io, none⟩ ⟨works, reached, Socket.Settled.refl _, Or.inl, nofun, fun _ _ => Nat.le_refl _⟩
    (io.kernel.work + 2)
  have ends := @readAvailable_ends config options io peerHungUp
  unfold readAvailable
  generalize WhileLoop.run (readAvailableStep config options peerHungUp) (io.kernel.work + 2)
    ⟨io, none⟩ = loop at kept ends
  refine ⟨kept.reached, kept.settled, kept.shut, ?_⟩
  intro open'
  have due : io.kernel.socket.finished = true → loop.io.due config ≤ io.due config :=
    fun finished => kept.due finished open'
  change loop.result.getD false = false ∧ _ ∧ (loop.io.kernel.socket.queue = [] ∨
    options.maxOutbufBytes.toNat ≤ loop.io.client.pending)
  cases result : loop.result with
  | some closing =>
    rcases kept.stopped (by rw [result]; rfl) with done | ⟨queue, stop⟩
    · rw [open'] at done
      cases done
    · rw [result] at stop
      rw [Option.some.inj stop]
      exact ⟨rfl, due, Or.inl queue⟩
  | none =>
    refine ⟨rfl, due, Or.inr ?_⟩
    by_contra room
    unfold readAvailableStep shouldReadAvailableInput at ends
    rw [result, decide_eq_true (Nat.lt_of_not_le room), Bool.or_true] at ends
    simp only [isSome_none, Bool.false_eq_true, if_false, if_true] at ends
    split at ends <;> cases ends

theorem drainWritableIfReady_sending (events : EventMask) :
    (drainWritableIfReady events io).1.Reached storage config options ∧
      Sending io (drainWritableIfReady events io).1 ∧
      (drainWritableIfReady events io).2 = false := by
  unfold drainWritableIfReady
  cases events.epollOut with
  | false => exact ⟨reached, Sending.refl io, rfl⟩
  | true =>
    obtain ⟨after, sending, sent⟩ := sendSome_sending works reached
    exact ⟨after, sending, (Bool.not_eq_eq_eq_not).mpr sent⟩

theorem readClientInputIfReady_reading (waits : io.client.closeAfterFlush = false)
    (events : EventMask) :
    let after := readClientInputIfReady config options events io
    after.1.Reached storage config options ∧
      io.kernel.socket.Settled after.1.kernel.socket ∧
      (after.1.client.inputClosed = true → io.client.inputClosed = true ∨
        after.1.kernel.socket.queue = [] ∧ after.1.kernel.socket.finished = true) ∧
      (after.1.client.session.loggedOut = false → after.2 = false ∧
        (io.kernel.socket.finished = true → after.1.due config ≤ io.due config) ∧
        (events.epollIn = true → io.client.inputClosed = false →
          after.1.kernel.socket.queue = [] ∨
            options.maxOutbufBytes.toNat ≤ after.1.client.pending)) := by
  unfold readClientInputIfReady
  cases reads : shouldReadClientInput events io.client with
  | false =>
    refine ⟨reached, Socket.Settled.refl _, Or.inl, fun _ => ⟨rfl, fun _ => Nat.le_refl _, ?_⟩⟩
    intro readable closed
    rw [shouldReadClientInput, readable, closed, waits] at reads
    cases reads
  | true =>
    obtain ⟨after, settled, shut, left⟩ := readAvailable_reading works reached events.epollHup
    refine ⟨after, settled, shut, ?_⟩
    intro open'
    obtain ⟨ok, due, reason⟩ := left open'
    exact ⟨ok, due, fun _ _ => reason⟩

end

/-- What an event without errors or hangup leaves of a client whose session stays open. -/
structure Serviced (storage : Storage) (config : RiskConfig) (options : EpollServerOptions)
    (before : ClientIo) (events : EventMask) (after : ClientIo) (interests : Option EventMask) :
    Prop where
  reached : after.Reached storage config options
  settled : before.kernel.socket.Settled after.kernel.socket
  shut : after.client.inputClosed = true → before.client.inputClosed = true ∨
    events.epollRdhup = true ∨
      after.kernel.socket.queue = [] ∧ after.kernel.socket.finished = true
  closed : interests = none → after.client.inputClosed = true
  armed : ∀ mask, interests = some mask → mask = clientInterests options after.client
  drained : events.epollIn = true → before.client.inputClosed = false →
    after.kernel.socket.queue = [] ∨ options.maxOutbufBytes.toNat ≤ after.client.pending
  due : before.kernel.socket.finished = true → after.client.pending ≤ before.due config

theorem applyPeerHalfClose_eq (events : EventMask) (client : ClientState) :
    applyPeerHalfClose events client =
      { client with inputClosed := events.epollRdhup || client.inputClosed } := by
  unfold applyPeerHalfClose
  cases events.epollRdhup with
  | true => rfl
  | false => rfl

/-- The parts of `service_client_event`, none of which fails. -/
theorem serviceClientEvent_eq {io : ClientIo} (noError : events.epollErr = false)
    (noHangup : events.epollHup = false) (sent : (drainWritableIfReady events io).2 = false)
    (read : (readClientInputIfReady config options events
      (drainWritableIfReady events io).1).2 = false) :
    let fed := (readClientInputIfReady config options events (drainWritableIfReady events io).1).1
    let client := applyPeerHalfClose events fed.client
    serviceClientEvent config options io events =
      ({ fed with client := client },
        if shouldCloseAfterFlush client then none else some (clientInterests options client)) := by
  unfold serviceClientEvent rearmClient shouldCloseForFullHangup
  simp only [noError, noHangup, sent, read, Bool.false_eq_true, if_false]
  split <;> rfl

/-- The session is the one that reading left. -/
theorem serviceClientEvent_session {io : ClientIo} (noError : events.epollErr = false)
    (sent : (drainWritableIfReady events io).2 = false) :
    (serviceClientEvent config options io events).1.client.session =
      (readClientInputIfReady config options events
        (drainWritableIfReady events io).1).1.client.session := by
  unfold serviceClientEvent rearmClient
  simp only [noError, sent, Bool.false_eq_true, if_false, applyPeerHalfClose_eq]
  split
  · rfl
  · split
    · rfl
    · split <;> rfl

theorem serviceClientEvent_serviced {io : ClientIo} (works : io.kernel.Works)
    (reached : io.Reached storage config options) (reading : io.client.session.loggedOut = false)
    (noError : events.epollErr = false) (noHangup : events.epollHup = false)
    (open' : (serviceClientEvent config options io events).1.client.session.loggedOut = false) :
    Serviced storage config options io events (serviceClientEvent config options io events).1
      (serviceClientEvent config options io events).2 := by
  obtain ⟨⟨produced, drained⟩, sending, sent⟩ := drainWritableIfReady_sending works reached events
  have waits := (drained.reading (sending.session ▸ reading)).2.2
  obtain ⟨⟨later, fed⟩, settled, shut, left⟩ :=
    readClientInputIfReady_reading (sending.works works) ⟨produced, drained⟩ waits events
  rw [serviceClientEvent_session noError sent] at open'
  obtain ⟨read, due, reason⟩ := left open'
  have flush := (fed.reading open').2.2
  rw [serviceClientEvent_eq noError noHangup sent read, applyPeerHalfClose_eq]
  generalize (readClientInputIfReady config options events (drainWritableIfReady events io).1).1 =
    after at fed settled shut due reason flush
  rw [sending.inputClosed] at shut reason
  refine ⟨⟨later, ?_⟩, sending.settled.trans settled, ?_, ?_, ?_, reason, ?_⟩
  · cases events.epollRdhup with
    | true => exact fed.inputEnds
    | false => exact fed
  · intro closed
    rcases Bool.or_eq_true_iff.mp closed with reported | closed
    · exact Or.inr (Or.inl reported)
    · exact (shut closed).imp_right Or.inr
  · intro none
    split at none
    · rename_i closes
      rw [shouldCloseAfterFlush, Bool.and_eq_true, Bool.or_eq_true] at closes
      rcases closes.2 with closed | closing
      · exact closed
      · cases flush.symm.trans closing
    · cases none
  · intro mask some
    split at some
    · cases some
    · exact (Option.some.inj some).symm
  · intro finished
    have less := (due (sending.settled finished).1).trans (sending.due finished)
    exact (Nat.le_add_right _ _).trans less

end Qsl
