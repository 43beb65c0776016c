import Qsl.EpollClient
import Qsl.SessionBudget

/- The responses of a session on their way to the peer: buffered, sent in parts, and reclaimed. -/
namespace Qsl

open List
open Protocol Reassembly StreamSocket

theorem wire_append (first second : List Response) :
    wire (first ++ second) = wire first ++ wire second := List.flatMap_append

namespace Session

variable (config : RiskConfig) (limit : Nat)

/-- The responses to a frame. -/
def answers (engine : MatchingEngine) (frame : List UInt8) : List Response :=
  match request? frame with
  | none => []
  | some request => (request.serve config engine).2

/-- The responses to some frames, up to the first that finds no room. -/
def respond : FrameContext → List (List UInt8) → List Response
  | _, [] => []
  | ctx, frame :: frames =>
    if (processFrame config limit ctx frame).2 ≠ .ok then []
    else answers config ctx.engine frame ++ respond (processFrame config limit ctx frame).1 frames

/-- The responses that a call of `on_bytes` produces. -/
def responses (session : Session) (engine : MatchingEngine) (input out : List UInt8) :
    List Response :=
  if session.loggedOut then []
  else respond config limit ⟨engine, false, out⟩
    (decompose front closes (session.inbuf ++ input)).frames

variable {storage : Storage} {config} {limit}

/-- A frame appends its responses, or leaves the output as it was. -/
theorem process_answered {ctx : FrameContext} (sound : ctx.engine.Sound storage)
    (frame : List UInt8) :
    (processFrame config limit ctx frame).1.engine.Sound storage ∧
      (processFrame config limit ctx frame).1.out = ctx.out ++
        if (processFrame config limit ctx frame).2 ≠ .ok then []
        else wire (answers config ctx.engine frame) := by
  rcases process_cases config limit sound frame with
    ⟨ends, done⟩ | ⟨request, found, _, ⟨_, done⟩ | ⟨_, done⟩⟩
  · have none : request? frame = none := Option.isNone_iff_eq_none.mp ends
    have silent : wire (answers config ctx.engine frame) = [] := by rw [answers, none]; rfl
    rw [done]
    refine ⟨sound, ?_⟩
    simp only [silent, ite_self, append_nil]
  · rw [done]
    refine ⟨request.serve_sound sound config, ?_⟩
    rw [answers, found]
    rfl
  · rw [done]
    refine ⟨?_, (append_nil _).symm⟩
    cases request with
    | newOrder order =>
      show (if limit = sizeMax then _ else _ : MatchingEngine).Sound storage
      split
      · exact Request.serve_sound sound config (.newOrder order)
      · exact sound
    | _ => exact sound

theorem serveFrames_respond (ctx : FrameContext) (sound : ctx.engine.Sound storage)
    (frames : List (List UInt8)) :
    (serveFrames config limit ctx frames).ctx.engine.Sound storage ∧
      (serveFrames config limit ctx frames).ctx.out =
        ctx.out ++ wire (respond config limit ctx frames) := by
  induction frames generalizing ctx with
  | nil => exact ⟨sound, (append_nil _).symm⟩
  | cons frame frames ih =>
    obtain ⟨kept, grown⟩ := @process_answered config limit storage ctx sound frame
    by_cases served : (processFrame config limit ctx frame).2 = .ok
    · obtain ⟨last, later⟩ := ih _ kept
      rw [serveFrames_served served, respond, if_neg (not_not.mpr served)]
      rw [if_neg (not_not.mpr served)] at grown
      refine ⟨last, ?_⟩
      rw [wire_append, ← append_assoc]
      exact later.trans (congrArg (· ++ wire _) grown)
    · rw [serveFrames_refused served, respond, if_pos served]
      rw [if_pos served] at grown
      exact ⟨kept, grown⟩

/-- A call appends the responses that it produces, and keeps to the limit. -/
theorem onBytes_responses {session : Session} {engine : MatchingEngine}
    (sound : engine.Sound storage) (input : List UInt8) {out : List UInt8}
    (room : out.length ≤ limit) :
    let reply := session.onBytes config engine input out limit
    reply.engine.Sound storage ∧
      reply.out = out ++ wire (session.responses config limit engine input out) ∧
      reply.out.length ≤ limit := by
  cases reading : session.loggedOut with
  | true =>
    rw [onBytes, responses, reading, if_pos rfl, if_pos rfl]
    exact ⟨sound, (append_nil _).symm, room⟩
  | false =>
    have answered := @serveFrames_respond config limit storage ⟨engine, false, out⟩ sound
      (decompose front closes (session.inbuf ++ input)).frames
    have within := @serveFrames_out storage config limit ⟨engine, false, out⟩ sound room
      (decompose front closes (session.inbuf ++ input)).frames
    rw [onBytes_eq reading sound, responses, reading, if_neg Bool.false_ne_true]
    exact ⟨answered.1, answered.2, within.1⟩

/-- Frames that leave the session open are all served. -/
theorem serveFrames_open (ctx : FrameContext) (sound : ctx.engine.Sound storage)
    (room : ctx.out.length ≤ limit) {frames : List (List UInt8)}
    (reading : (serveFrames config limit ctx frames).ctx.loggedOut = false) :
    (serveFrames config limit ctx frames).status = .ok := by
  induction frames generalizing ctx with
  | nil => rfl
  | cons frame frames ih =>
    by_cases served : (processFrame config limit ctx frame).2 = .ok
    · obtain ⟨kept, fits, _⟩ := process_served sound room served
      rw [serveFrames_served served] at reading ⊢
      exact ih _ kept fits reading
    · obtain ⟨_, closed, _⟩ := process_refused sound served
      rw [serveFrames_refused served] at reading
      cases closed.symm.trans reading

/-- A call that leaves the session open has served every frame that is whole. -/
theorem onBytes_open {session : Session} {engine : MatchingEngine} (sound : engine.Sound storage)
    (input : List UInt8) {out : List UInt8} (room : out.length ≤ limit) (limited : limit ≤ sizeMax)
    (reading : (session.onBytes config engine input out limit).session.loggedOut = false) :
    let reply := session.onBytes config engine input out limit
    let parse := decompose front closes (session.inbuf ++ input)
    session.loggedOut = false ∧ reply.status = .ok ∧ parse.closed = false ∧
      reply.session.inbuf = parse.rest := by
  cases before : session.loggedOut with
  | true =>
    rw [onBytes, before, if_pos rfl] at reading
    cases before.symm.trans reading
  | false =>
    rw [onBytes_eq before sound] at reading ⊢
    obtain ⟨still, goes⟩ := Bool.or_eq_false_iff.mp reading
    have served := serveFrames_open ⟨engine, false, out⟩ sound room still
    have consumed := (serveFrames_ok ⟨engine, false, out⟩ sound room limited served).2.1
    have whole := (@decompose_spec _ front closes reads (session.inbuf ++ input)).1
    have left := @drop_left _
      (decompose front closes (session.inbuf ++ input)).frames.flatten
      (decompose front closes (session.inbuf ++ input)).rest
    rw [whole, ← consumed] at left
    exact ⟨rfl, served, goes, left⟩

end Session

/-- One client, the engine behind it, and the bytes that the socket has accepted from it. -/
structure ResponseStream where
  engine : MatchingEngine
  client : ClientState
  accepted : List UInt8

namespace ResponseStream

open Session (front closes reads onBytes_open)

/-- Bytes of the client's peer reach the session. -/
def input (config : RiskConfig) (options : EpollServerOptions) (stream : ResponseStream)
    (bytes : List UInt8) : ResponseStream :=
  let (engine, client, _) := applySessionInput config options stream.engine stream.client bytes
  { stream with engine := engine, client := client }

/-- The socket accepts some of the bytes that wait. -/
def send (stream : ResponseStream) (n : Nat) : ResponseStream where
  engine := stream.engine
  client := (sendNextChunk stream.client (.ok n)).1
  accepted := stream.accepted ++ (stream.client.outbuf.drop stream.client.sent).take n

theorem send_client (stream : ResponseStream) {n : Nat} (positive : 0 < n) :
    (stream.send n).client = { stream.client with sent := stream.client.sent + n } := by
  rw [send, sendNextChunk, if_pos positive]

/-- A stream in the course of a connection, with the bytes that its session was given and the
responses that it has produced. The loops of `send_some` and `read_available` are taken apart into
their iterations; between them anything may happen. -/
inductive Reached (storage : Storage) (config : RiskConfig) (options : EpollServerOptions) :
    ResponseStream → List UInt8 → List Response → Prop
  | start {engine : MatchingEngine} (reached : engine.Reachable storage) (generation : UInt32) :
      Reached storage config options ⟨engine, { generation := generation }, []⟩ [] []
  | input {stream : ResponseStream} {received : List UInt8} {produced : List Response}
      (before : Reached storage config options stream received produced) (bytes : List UInt8) :
      Reached storage config options (stream.input config options bytes) (received ++ bytes)
        (produced ++ stream.client.session.responses config (hardOutputLimit options) stream.engine
          bytes stream.client.dropSentPrefix.outbuf)
  | sends {stream : ResponseStream} {received : List UInt8} {produced : List Response}
      (before : Reached storage config options stream received produced) (n : Nat)
      (positive : 0 < n) (within : n ≤ stream.client.outbuf.length - stream.client.sent) :
      Reached storage config options (stream.send n) received produced
  | wouldBlock {stream : ResponseStream} {received : List UInt8} {produced : List Response}
      (before : Reached storage config options stream received produced) :
      Reached storage config options
        { stream with client := (sendNextChunk stream.client .wouldBlock).1 } received produced
  | interrupted {stream : ResponseStream} {received : List UInt8} {produced : List Response}
      (before : Reached storage config options stream received produced) :
      Reached storage config options
        { stream with client := (sendNextChunk stream.client .interrupted).1 } received produced
  | flushed {stream : ResponseStream} {received : List UInt8} {produced : List Response}
      (before : Reached storage config options stream received produced)
      (all : ¬ stream.client.sent < stream.client.outbuf.length) :
      Reached storage config options
        { stream with client := { stream.client with outbuf := [], sent := 0 } } received produced
  | inputEnds {stream : ResponseStream} {received : List UInt8} {produced : List Response}
      (before : Reached storage config options stream received produced) :
      Reached storage config options
        { stream with client := { stream.client with inputClosed := true } } received produced
  | others {stream : ResponseStream} {received : List UInt8} {produced : List Response}
      (before : Reached storage config options stream received produced) (command : Command) :
      Reached storage config options
        { stream with engine := (applyCommand config stream.engine command).1 } received produced

/-- What holds at every moment. -/
structure Intact (storage : Storage) (options : EpollServerOptions) (stream : ResponseStream)
    (produced : List Response) : Prop where
  sound : stream.engine.Sound storage
  sent_le : stream.client.sent ≤ stream.client.outbuf.length
  stream_eq : stream.accepted ++ stream.client.outbuf.drop stream.client.sent = wire produced
  pending_le : stream.client.pending ≤ hardOutputLimit options

namespace Intact

variable {storage : Storage} {config : RiskConfig} {options : EpollServerOptions}
  {stream : ResponseStream} {produced : List Response}

section

variable (intact : Intact storage options stream produced)

include intact

/-- The session appends to what is left of the buffer. -/
theorem input (bytes : List UInt8) :
    Intact storage options (stream.input config options bytes)
      (produced ++ stream.client.session.responses config (hardOutputLimit options) stream.engine
        bytes stream.client.dropSentPrefix.outbuf) := by
  have room : (stream.client.outbuf.drop stream.client.sent).length ≤ hardOutputLimit options := by
    rw [length_drop]
    exact intact.pending_le
  obtain ⟨engine_eq, -, outbuf_eq, sent_eq, -⟩ :=
    applySessionInput_eq config options stream.engine stream.client bytes
  obtain ⟨sound, out_eq, within⟩ := @Session.onBytes_responses config
    (hardOutputLimit options) storage stream.client.session stream.engine intact.sound bytes _ room
  rw [← outbuf_eq] at out_eq within
  have out_eq : (stream.input config options bytes).client.outbuf = _ := out_eq
  have sent_eq : (stream.input config options bytes).client.sent = 0 := sent_eq
  refine ⟨?_, ?_, ?_, ?_⟩
  · rw [← engine_eq] at sound
    exact sound
  · rw [sent_eq]
    exact Nat.zero_le _
  · rw [sent_eq, drop_zero, out_eq, wire_append, ← intact.stream_eq, append_assoc,
      stream.client.dropSentPrefix_eq]
    rfl
  · rw [ClientState.pending, sent_eq]
    exact within

/-- What the socket accepts moves from the buffer to the stream. -/
theorem send {n : Nat} (positive : 0 < n)
    (within : n ≤ stream.client.outbuf.length - stream.client.sent) :
    Intact storage options (stream.send n) produced := by
  have sent_eq := stream.send_client positive
  have sent_le := intact.sent_le
  have pending_le := intact.pending_le
  unfold ClientState.pending at pending_le
  refine ⟨intact.sound, ?_, ?_, ?_⟩
  · rw [sent_eq]
    change stream.client.sent + n ≤ stream.client.outbuf.length
    omega
  · rw [sent_eq]
    change stream.accepted ++ (stream.client.outbuf.drop stream.client.sent).take n ++
      stream.client.outbuf.drop (stream.client.sent + n) = wire produced
    rw [← drop_drop, append_assoc, take_append_drop, intact.stream_eq]
  · rw [ClientState.pending, sent_eq]
    change stream.client.outbuf.length - (stream.client.sent + n) ≤ hardOutputLimit options
    omega

theorem flushed (all : ¬ stream.client.sent < stream.client.outbuf.length) :
    Intact storage options
      { stream with client := { stream.client with outbuf := [], sent := 0 } } produced := by
  have none : stream.client.outbuf.drop stream.client.sent = [] :=
    drop_eq_nil_of_le (Nat.le_of_not_lt all)
  have stream_eq := intact.stream_eq
  rw [none] at stream_eq
  exact ⟨intact.sound, Nat.le_refl 0, stream_eq, Nat.zero_le _⟩

/-- A client without pending output has nothing left to send. -/
theorem transmitted (none : stream.client.pending = 0) : stream.accepted = wire produced := by
  have empty : stream.client.outbuf.drop stream.client.sent = [] :=
    drop_eq_nil_of_le (Nat.le_of_sub_eq_zero none)
  have stream_eq := intact.stream_eq
  rw [empty, append_nil] at stream_eq
  exact stream_eq

end

end Intact

variable {storage : Storage} {config : RiskConfig} {options : EpollServerOptions}
  {stream : ResponseStream} {received : List UInt8} {produced : List Response}

theorem Reached.intact (reached : Reached storage config options stream received produced) :
    Intact storage options stream produced := by
  induction reached with
  | start reached generation =>
    exact ⟨reached.sound, Nat.le_refl 0, rfl, Nat.zero_le _⟩
  | input before bytes ih => exact ih.input bytes
  | sends before n positive within ih => exact ih.send positive within
  | wouldBlock before ih => exact ⟨ih.sound, ih.sent_le, ih.stream_eq, ih.pending_le⟩
  | interrupted before ih => exact ⟨ih.sound, ih.sent_le, ih.stream_eq, ih.pending_le⟩
  | flushed before all ih => exact ih.flushed all
  | inputEnds before ih => exact ⟨ih.sound, ih.sent_le, ih.stream_eq, ih.pending_le⟩
  | others before command ih =>
    exact ⟨(ih.sound.applyCommand config command).1, ih.sent_le, ih.stream_eq, ih.pending_le⟩

theorem hardOutputLimit_le (options : EpollServerOptions) : hardOutputLimit options ≤ sizeMax := by
  unfold hardOutputLimit
  split
  · exact Nat.le_refl _
  · exact Nat.le_of_lt_succ options.maxOutbufHardBytes.toNat_lt

/-- What a call that leaves the session open makes of a client. -/
theorem Intact.input_open (intact : Intact storage options stream produced) {bytes : List UInt8}
    (reading : (stream.input config options bytes).client.session.loggedOut = false) :
    let next := (stream.input config options bytes).client
    let parse := decompose front closes (stream.client.session.inbuf ++ bytes)
    stream.client.session.loggedOut = false ∧ parse.closed = false ∧
      next.session.inbuf = parse.rest ∧ next.closeAfterFlush = stream.client.closeAfterFlush ∧
      (applySessionInput config options stream.engine stream.client bytes).2.2 = .continue := by
  have room : (stream.client.outbuf.drop stream.client.sent).length ≤ hardOutputLimit options := by
    rw [length_drop]
    exact intact.pending_le
  have session := (applySessionInput_eq config options stream.engine stream.client bytes).2.1
  have same : (stream.input config options bytes).client.session = _ := session
  rw [same] at reading
  obtain ⟨before, status, goes, rest⟩ :=
    onBytes_open intact.sound bytes room (hardOutputLimit_le options) reading
  have result : (applySessionInput config options stream.engine stream.client bytes).2.2 =
      .continue ∧ (stream.input config options bytes).client.closeAfterFlush =
        stream.client.closeAfterFlush := by
    unfold ResponseStream.input applySessionInput
    rw [stream.client.dropSentPrefix_eq]
    simp only [status, reading, reduceCtorEq, if_false, Bool.false_eq_true]
    exact ⟨trivial, trivial⟩
  refine ⟨before, goes, ?_, result.2, result.1⟩
  rw [same]
  exact rest

/-- A session that is open has served every frame that was given to it whole, and its client waits
for more. -/
theorem Reached.reading (reached : Reached storage config options stream received produced)
    (reading : stream.client.session.loggedOut = false) :
    (decompose front closes received).closed = false ∧
      stream.client.session.inbuf = (decompose front closes received).rest ∧
      stream.client.closeAfterFlush = false := by
  induction reached with
  | start reached generation =>
    rw [decompose_nil reads]
    exact ⟨rfl, rfl, rfl⟩
  | input before bytes ih =>
    obtain ⟨open', goes, rest, flag, _⟩ := before.intact.input_open reading
    obtain ⟨closed, inbuf, waits⟩ := ih open'
    rw [inbuf] at goes rest
    rw [decompose_append reads]
    simp only [closed, Bool.false_eq_true, if_false]
    exact ⟨goes, rest, flag.trans waits⟩
  | sends before n positive within ih =>
    rw [send_client _ positive] at reading ⊢
    exact ih reading
  | wouldBlock before ih => exact ih reading
  | interrupted before ih => exact ih reading
  | flushed before all ih => exact ih reading
  | inputEnds before ih => exact ih reading
  | others before command ih => exact ih reading

/-- A client that is closed without a hangup has flushed its output. -/
theorem rearm_none {client : ClientState} {events : EventMask} (there : events.epollHup = false)
    (closed : (rearmClient options client events).2 = none) : client.pending = 0 := by
  unfold rearmClient shouldCloseForFullHangup at closed
  rw [there, if_neg Bool.false_ne_true] at closed
  simp only at closed
  split at closed
  · rename_i flush
    have same : (applyPeerHalfClose events client).pending = client.pending := by
      unfold applyPeerHalfClose
      split <;> rfl
    unfold shouldCloseAfterFlush hasPendingOutput at flush
    rw [same] at flush
    simp only [gt_iff_lt, Bool.and_eq_true, Bool.not_eq_true', decide_eq_false_iff_not] at flush
    omega
  · cases closed

/-- No response byte is lost, duplicated or reordered: at every moment the bytes that the socket
accepted and those that wait are the responses of the session, in order; what waits keeps to the
hard limit; and a connection that is closed once its output is flushed has sent them all. -/
theorem response_stream_intact
    (reached : Reached storage config options stream received produced) :
    stream.accepted ++ stream.client.outbuf.drop stream.client.sent = wire produced ∧
      stream.client.sent ≤ stream.client.outbuf.length ∧
      stream.client.pending ≤ hardOutputLimit options ∧
      ∀ events : EventMask, events.epollHup = false →
        (rearmClient options stream.client events).2 = none → stream.accepted = wire produced := by
  have intact := reached.intact
  refine ⟨intact.stream_eq, intact.sent_le, intact.pending_le, ?_⟩
  intro events there closed
  exact intact.transmitted (rearm_none there closed)

/-- A heartbeat, and ten bytes of its answer on the way. -/
def tenBytes : ResponseStream :=
  (input ⟨100, 10000⟩ {} ⟨MatchingEngine.new .pooled, { generation := 1 }, []⟩
    (framed .heartbeat heartbeatBodySize (BigEndian.store 8 7))).send 10

theorem response_stream_intact_tenBytes :
    tenBytes.accepted.length = 10 ∧
      tenBytes.accepted ++ tenBytes.client.outbuf.drop tenBytes.client.sent =
        wire [.heartbeatAck ⟨7⟩] := by
  have reached : Reached .pooled ⟨100, 10000⟩ {} tenBytes
      ([] ++ framed .heartbeat heartbeatBodySize (BigEndian.store 8 7))
      ([] ++ Session.responses ⟨100, 10000⟩ (hardOutputLimit {}) Session.new
        (MatchingEngine.new .pooled) (framed .heartbeat heartbeatBodySize (BigEndian.store 8 7))
        (ClientState.dropSentPrefix { generation := 1 }).outbuf) :=
    .sends (.input (.start .new 1) _) 10 (by decide) (by decide)
  have produced : Session.responses ⟨100, 10000⟩ (hardOutputLimit {}) Session.new
      (MatchingEngine.new .pooled) (framed .heartbeat heartbeatBodySize (BigEndian.store 8 7))
      (ClientState.dropSentPrefix { generation := 1 }).outbuf = [.heartbeatAck ⟨7⟩] := by decide
  have intact := (response_stream_intact reached).1
  rw [nil_append, produced] at intact
  exact ⟨by decide, intact⟩

end ResponseStream

end Qsl
