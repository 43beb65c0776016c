import Qsl.SessionBudget

namespace Qsl

open Protocol Reassembly

variable {engine : MatchingEngine}

/-- Sessions in front of one gateway. -/
structure SharedGateway (ι : Type) where
  engine : MatchingEngine
  sessions : ι → Session

namespace SharedGateway

variable {ι : Type} [DecidableEq ι]

omit [DecidableEq ι] in
def connect (engine : MatchingEngine) : SharedGateway ι := ⟨engine, fun _ => Session.new⟩

/-- A chunk arrives at one of the sessions; the answer is what that session sends. -/
def onBytes (config : RiskConfig) (shared : SharedGateway ι) (call : ι × List UInt8) :
    SharedGateway ι × List UInt8 :=
  let reply := (shared.sessions call.1).onBytesUnbounded config shared.engine call.2
  (⟨reply.engine, Function.update shared.sessions call.1 reply.session⟩, reply.out)

omit [DecidableEq ι] in
/-- The sessions as readers of their streams. -/
def hub (shared : SharedGateway ι) : Hub MatchingEngine UInt8 ι :=
  ⟨shared.engine, fun key => (shared.sessions key).inbuf,
    fun key => (shared.sessions key).loggedOut⟩

end SharedGateway

/-- A frame by itself: what it makes of the engine and what it sends. -/
def answerFrame (config : RiskConfig) (engine : MatchingEngine) (frame : List UInt8) :
    MatchingEngine × List UInt8 :=
  let (ctx, _) := processFrame config sizeMax ⟨engine, false, []⟩ frame
  (ctx.engine, ctx.out)

namespace Session

variable {storage : Storage} {config : RiskConfig} {limit : Nat}

/-- A frame that is served does as it would by itself. -/
theorem process_answers {ctx : FrameContext} (sound : ctx.engine.Sound storage)
    {frame : List UInt8} (served : (processFrame config limit ctx frame).2 = .ok) :
    (processFrame config limit ctx frame).1 =
      ⟨(answerFrame config ctx.engine frame).1, ctx.loggedOut || closes frame,
        ctx.out ++ (answerFrame config ctx.engine frame).2⟩ := by
  rcases process_cases config limit sound frame with
    ⟨ends, done⟩ | ⟨request, found, goes, ⟨fits, done⟩ | ⟨_, done⟩⟩
  · have unread := Option.isNone_iff_eq_none.mp ends
    rw [done, answerFrame, process_none unread, ends]
    simp
  · rw [done, answerFrame, process_alone sound found, goes, Bool.or_false]
  · rw [done] at served
    cases served

/-- Frames that are all served are answered one by one. -/
theorem serveFrames_answers (ctx : FrameContext) (sound : ctx.engine.Sound storage)
    (room : ctx.out.length ≤ limit) {frames : List (List UInt8)}
    (served : (serveFrames config limit ctx frames).status = .ok) :
    let direct := Machine.run (answerFrame config) ctx.engine frames
    serveFrames config limit ctx frames =
      ⟨⟨direct.1, ctx.loggedOut || frames.any closes, ctx.out ++ direct.2.flatten⟩,
        frames.flatten.length, .ok⟩ := by
  induction frames generalizing ctx with
  | nil => simp [serveFrames]
  | cons frame frames ih =>
    by_cases first : (processFrame config limit ctx frame).2 = .ok
    · obtain ⟨kept, fits, _⟩ := process_served sound room first
      have answered := process_answers sound first
      rw [serveFrames_served first] at served ⊢
      rw [ih _ kept fits served, answered]
      simp [Machine.run_cons, Bool.or_assoc]
    · rw [serveFrames_refused first] at served
      exact absurd served first

/-- Without a bound, frames are all served as long as a vector can hold the answers. -/
theorem serveFrames_held (ctx : FrameContext) (sound : ctx.engine.Sound storage)
    (room : ctx.out.length ≤ sizeMax) {frames : List (List UInt8)}
    (held : (serveFrames config sizeMax ctx frames).ctx.out.length ≤ vectorMaxSize) :
    (serveFrames config sizeMax ctx frames).status = .ok := by
  by_contra stopped
  obtain ⟨before, _, _, _, _, same, _, kept, request, _, full⟩ :=
    serveFrames_stopped ctx sound room (fun _ => held) stopped
  have small := budget_le kept config request
  have top : vectorMaxSize + 2 ^ 38 ≤ sizeMax := by decide
  rw [same] at held
  simp only at held full
  omega

/-- A call without a bound answers the frames that are now whole. -/
theorem onBytesUnbounded_eq {session : Session} (reading : session.loggedOut = false)
    (sound : engine.Sound storage) {input : List UInt8}
    (held : (session.onBytesUnbounded config engine input).out.length ≤ vectorMaxSize) :
    let parse := decompose front closes (session.inbuf ++ input)
    let direct := Machine.run (answerFrame config) engine parse.frames
    session.onBytesUnbounded config engine input =
      ⟨direct.1, ⟨parse.rest, parse.closed⟩, direct.2.flatten, .ok⟩ := by
  obtain ⟨whole, _, _, ends⟩ := @decompose_spec UInt8 front closes reads (session.inbuf ++ input)
  unfold onBytesUnbounded at held ⊢
  rw [onBytes_eq reading sound] at held ⊢
  have answered := serveFrames_answers ⟨engine, false, []⟩ sound (Nat.zero_le _)
    (serveFrames_held ⟨engine, false, []⟩ sound (Nat.zero_le _) held)
  -- a frame that closes the session is the last of its parse
  have flag : ((decompose front closes (session.inbuf ++ input)).frames.any closes ||
      (decompose front closes (session.inbuf ++ input)).closed) =
        (decompose front closes (session.inbuf ++ input)).closed := by
    rw [Bool.or_eq_right_iff_imp, List.any_eq_true]
    exact ends
  have left : (session.inbuf ++ input).drop
      (decompose front closes (session.inbuf ++ input)).frames.flatten.length =
        (decompose front closes (session.inbuf ++ input)).rest := by
    conv_lhs =>
      arg 2
      rw [← whole]
    exact List.drop_left
  simp only [answered, Bool.false_or, flag, left, List.nil_append]

theorem answerFrame_sound (sound : engine.Sound storage) (frame : List UInt8) :
    (answerFrame config engine frame).1.Sound storage := by
  cases found : request? frame with
  | none =>
    rw [answerFrame, process_none found]
    exact sound
  | some request =>
    rw [answerFrame, process_alone sound found]
    exact request.serve_sound sound config

end Session

namespace SharedGateway

variable {ι : Type} [DecidableEq ι] {storage : Storage} {config : RiskConfig}

theorem hub_update (engine : MatchingEngine) (shared : SharedGateway ι) (key : ι)
    (session : Session) :
    hub ⟨engine, Function.update shared.sessions key session⟩ =
      ⟨engine, Function.update shared.hub.rest key session.inbuf,
        Function.update shared.hub.closed key session.loggedOut⟩ := by
  have rests := Function.comp_update Session.inbuf shared.sessions key session
  have flags := Function.comp_update Session.loggedOut shared.sessions key session
  exact congrArg₂ (Hub.mk engine) rests flags

/-- A session that is logged out hears nothing. -/
theorem onBytes_over {shared : SharedGateway ι} {key : ι}
    (gone : (shared.sessions key).loggedOut = true) (chunk : List UInt8) :
    shared.onBytes config (key, chunk) = (shared, []) := by
  rw [onBytes, Session.onBytesUnbounded, Session.onBytes, gone, if_pos rfl,
    Function.update_eq_self]

/-- The sessions read their streams as a hub does. -/
theorem onBytes_hub (shared : SharedGateway ι) (call : ι × List UInt8)
    (sound : shared.engine.Sound storage)
    (held : (shared.onBytes config call).2.length ≤ vectorMaxSize) :
    (shared.onBytes config call).1.engine.Sound storage ∧
      shared.hub.call Session.front Session.closes (answerFrame config) call =
        ((shared.onBytes config call).1.hub, (shared.onBytes config call).2) := by
  obtain ⟨key, chunk⟩ := call
  cases reading : (shared.sessions key).loggedOut with
  | true =>
    have closed : shared.hub.closed key = true := reading
    rw [onBytes_over reading, Hub.call, if_pos closed]
    exact ⟨sound, rfl⟩
  | false =>
    have answered := Session.onBytesUnbounded_eq reading sound held
    have open' : shared.hub.closed key = false := reading
    rw [onBytes, answered]
    simp only [hub_update]
    rw [Hub.call, open', if_neg Bool.false_ne_true]
    exact ⟨Machine.run_invariant (answerFrame config) (MatchingEngine.Sound storage)
      (fun _ frame valid => Session.answerFrame_sound valid frame) sound _, rfl⟩

/-- However the streams are cut into chunks and the calls interleaved, the frames are processed
one by one in the order in which they are complete. -/
theorem run_onBytes (reached : engine.Reachable storage) (config : RiskConfig)
    {calls : List (ι × List UInt8)}
    (held : ∀ out ∈ (Machine.run (onBytes config) (connect engine) calls).2,
      out.length ≤ vectorMaxSize) :
    let run := Machine.run (onBytes config) (connect engine) calls
    let frames := arrivals Session.front Session.closes [] calls
    let direct := handleAll (answerFrame config) engine frames
    run.1.engine = direct.1 ∧
      (∀ key, sentOn key calls run.2 = sentOn key frames direct.2) ∧
      ∀ key, (run.1.sessions key).loggedOut =
        (decompose Session.front Session.closes (streamOf key calls)).closed := by
  obtain ⟨_, same⟩ := Machine.run_refines_fit (onBytes config)
    (Hub.call Session.front Session.closes (answerFrame config)) hub
    (fun shared => shared.engine.Sound storage) (fun out => out.length ≤ vectorMaxSize)
    onBytes_hub reached.sound held
  obtain ⟨follows, state, sent⟩ := run_call (answerFrame config) Session.reads engine calls
  have fresh : (connect engine : SharedGateway ι).hub = Hub.fresh engine := rfl
  rw [fresh] at same
  rw [same] at follows state sent
  exact ⟨state, sent, follows.closed⟩

/-- Chunking never matters. The run is the fold of `process_frame` over the frames in their order
of arrival, which on each stream are those that the stream decomposes into; another schedule
of the same streams with the same order of arrival gives the same; and a session that is
logged out interprets nothing any more. -/
theorem chunking_irrelevant {engine : MatchingEngine} (reached : engine.Reachable storage)
    (config : RiskConfig) (calls others : List (ι × List UInt8))
    (streams : ∀ key, streamOf key calls = streamOf key others)
    (order : arrivals Session.front Session.closes [] calls =
      arrivals Session.front Session.closes [] others)
    (held : ∀ out ∈ (Machine.run (onBytes config) (connect engine) calls).2,
      out.length ≤ vectorMaxSize)
    (heldOthers : ∀ out ∈ (Machine.run (onBytes config) (connect engine) others).2,
      out.length ≤ vectorMaxSize) :
    let run := Machine.run (onBytes config) (connect engine) calls
    let run' := Machine.run (onBytes config) (connect engine) others
    let frames := arrivals Session.front Session.closes [] calls
    let direct := handleAll (answerFrame config) engine frames
    (run.1.engine = run'.1.engine ∧
        ∀ key, sentOn key calls run.2 = sentOn key others run'.2 ∧
          (run.1.sessions key).loggedOut = (run'.1.sessions key).loggedOut) ∧
      (run.1.engine = direct.1 ∧
        ∀ key, sentOn key calls run.2 = sentOn key frames direct.2 ∧
          (run.1.sessions key).loggedOut =
            (decompose Session.front Session.closes (streamOf key calls)).closed ∧
          (frames.filter (fun frame => frame.1 = key)).map Prod.snd =
            (decompose Session.front Session.closes (streamOf key calls)).frames) ∧
      ∀ key, (run.1.sessions key).loggedOut = true →
        ∀ chunk, run.1.onBytes config (key, chunk) = (run.1, []) := by
  obtain ⟨state, sent, flags⟩ := run_onBytes reached config held
  obtain ⟨state', sent', flags'⟩ := run_onBytes reached config heldOthers
  refine ⟨⟨?_, ?_⟩, ⟨state, ?_⟩, ?_⟩
  · rw [state, state', order]
  · intro key
    rw [sent, sent', flags, flags', order, streams]
    exact ⟨rfl, rfl⟩
  · intro key
    exact ⟨sent key, flags key, arrivals_on Session.reads key calls⟩
  · intro key gone chunk
    exact onBytes_over gone chunk

/-- Two heartbeats on two sessions, the first in two pieces around the other. -/
def splitBeats : List (Bool × List UInt8) :=
  let beat := framed .heartbeat heartbeatBodySize (BigEndian.store 8 7)
  [(true, beat.take 5), (false, beat), (true, beat.drop 5)]

/-- The same streams with the second heartbeat in pieces, and an empty chunk. -/
def splitOtherBeat : List (Bool × List UInt8) :=
  let beat := framed .heartbeat heartbeatBodySize (BigEndian.store 8 7)
  [(false, beat.take 20), (true, []), (false, beat.drop 20), (true, beat)]

theorem chunking_irrelevant_beats :
    let run := Machine.run (onBytes ⟨100, 10000⟩) (connect (MatchingEngine.new .baseline)) splitBeats
    let run' := Machine.run (onBytes ⟨100, 10000⟩) (connect (MatchingEngine.new .baseline))
      splitOtherBeat
    run.2 ≠ run'.2 ∧ sentOn true splitBeats run.2 = sentOn true splitOtherBeat run'.2 := by
  have reached : (MatchingEngine.new .baseline).Reachable .baseline := .new
  have same := chunking_irrelevant reached ⟨100, 10000⟩ splitBeats splitOtherBeat (by decide)
    (by decide) (by decide) (by decide)
  exact ⟨by decide, (same.1.2 true).1⟩

end SharedGateway

end Qsl
