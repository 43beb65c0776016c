import Qsl.ClientService

/- A connection under soft backpressure whose peer finishes sending: which of the bytes that the
peer sent are read before the connection is closed. -/
namespace Qsl

open Protocol Reassembly StreamSocket Session

/-- A client, the engine that it shares with others, the kernel's end of its socket, and the
interests registered for it; none are once the connection is closed. -/
structure Connection where
  socket : Socket UInt8
  engine : MatchingEngine
  client : ClientState
  interests : Option EventMask

/-- Between events the peer sends, reads or finishes, and other clients use the engine. Then an
event is serviced, and a script says what happens during its system calls. -/
inductive Move where
  | peer (turn : Turn UInt8)
  | others (command : Command)
  | service (events : EventMask) (script : List (Turn UInt8))

namespace Connection

/-- As `register_client` leaves it. -/
def opened (engine : MatchingEngine) (generation : UInt32) (room : Nat) : Connection where
  socket := { room := room }
  engine := engine
  client := { generation := generation }
  interests := some { epollIn := true, epollRdhup := true, epollErr := true, epollHup := true }

section Moves

variable (config : RiskConfig) (options : EpollServerOptions)

def step (conn : Connection) : Move → Connection
  | .peer turn => { conn with socket := conn.socket.advance turn }
  | .others command => { conn with engine := (applyCommand config conn.engine command).1 }
  | .service events script =>
    let (io, interests) :=
      serviceClientEvent config options ⟨⟨conn.socket, script⟩, conn.engine, conn.client⟩ events
    ⟨io.kernel.socket, io.engine, io.client, interests⟩

def run (conn : Connection) (moves : List Move) : Connection :=
  moves.foldl (step config options) conn

/-- Every move of a run meets a condition on it and on the connection that it finds. -/
def Along (holds : Connection → Move → Prop) : Connection → List Move → Prop
  | _, [] => True
  | conn, move :: moves => holds conn move ∧ Along holds (step config options conn move) moves

/-- What the kernel may report: no error and no hangup, what was asked for, the half-close once
the peer has finished, and with it the bytes that are queued. Bytes that arrive between a report
and its service are not in it, but behind a half-close there are none. -/
structure Reports (socket : Socket UInt8) (interests events : EventMask) : Prop where
  noError : events.epollErr = false
  noHangup : events.epollHup = false
  readable : events.epollIn = true → interests.epollIn = true
  writable : events.epollOut = true → interests.epollOut = true
  finished : events.epollRdhup = true → socket.finished = true
  queued : events.epollRdhup = true → interests.epollIn = true → socket.queue ≠ [] →
    events.epollIn = true

/-- The moves considered: the connection is there, no system call fails, the kernel keeps to its
word, and the session is not logged out, which it also is when the hard cap is exceeded. -/
def Fair (conn : Connection) (move : Move) : Prop :=
  (step config options conn move).client.session.loggedOut = false ∧
    match move with
    | .service events script => (∀ turn ∈ script, turn.fails = false) ∧
        ∃ interests ∈ conn.interests, Reports conn.socket interests events
    | _ => conn.interests.isSome = true

/-- The first report of the half-close finds nothing queued, or the client so far below the
high-water mark that the answers to what is queued do not take it there. -/
def Unpaused (conn : Connection) : Move → Prop
  | .service events _ => events.epollRdhup = true → conn.client.inputClosed = false →
      conn.socket.queue = [] ∨
        conn.client.pending +
            (conn.client.session.owed config conn.engine conn.socket.queue).length <
          options.maxOutbufBytes.toNat
  | _ => True

instance reportsDecidable (socket : Socket UInt8) (interests events : EventMask) :
    Decidable (Reports socket interests events) :=
  decidable_of_iff
    (events.epollErr = false ∧ events.epollHup = false ∧
      (events.epollIn = true → interests.epollIn = true) ∧
      (events.epollOut = true → interests.epollOut = true) ∧
      (events.epollRdhup = true → socket.finished = true) ∧
      (events.epollRdhup = true → interests.epollIn = true → socket.queue ≠ [] →
        events.epollIn = true))
    ⟨fun ⟨noError, noHangup, readable, writable, finished, queued⟩ =>
        ⟨noError, noHangup, readable, writable, finished, queued⟩,
      fun reports => ⟨reports.noError, reports.noHangup, reports.readable, reports.writable,
        reports.finished, reports.queued⟩⟩

instance fairDecidable (conn : Connection) :
    (move : Move) → Decidable (Fair config options conn move)
  | .peer _ => inferInstanceAs (Decidable (_ ∧ _ = true))
  | .others _ => inferInstanceAs (Decidable (_ ∧ _ = true))
  | .service _ script => inferInstanceAs (Decidable (_ ∧ (∀ turn ∈ script, turn.fails = false) ∧
      ∃ interests ∈ conn.interests, Reports conn.socket interests _))

instance alongDecidable (holds : Connection → Move → Prop)
    [each : ∀ conn move, Decidable (holds conn move)] :
    (conn : Connection) → (moves : List Move) → Decidable (Along config options holds conn moves)
  | _, [] => isTrue trivial
  | conn, move :: moves =>
    @instDecidableAnd _ _ (each conn move)
      (alongDecidable holds (step config options conn move) moves)

end Moves

/-- All that the peer sent was read and given to the session, which has served every frame of
it. -/
structure Drained (storage : Storage) (config : RiskConfig) (options : EpollServerOptions)
    (conn : Connection) : Prop where
  queue : conn.socket.queue = []
  served : ∃ produced, ResponseStream.Reached storage config options
    ⟨conn.engine, conn.client, conn.socket.accepted⟩ conn.socket.arrived produced
  inbuf : conn.client.session.inbuf = (decompose front closes conn.socket.arrived).rest

/-- What holds between moves. -/
structure Kept (storage : Storage) (config : RiskConfig) (options : EpollServerOptions)
    (conn : Connection) : Prop where
  reached : ∃ produced, ResponseStream.Reached storage config options
    ⟨conn.engine, conn.client, conn.socket.accepted⟩ conn.socket.taken produced
  reading : conn.client.session.loggedOut = false
  finished : conn.client.inputClosed = true → conn.socket.finished = true
  closed : conn.interests = none → conn.client.inputClosed = true
  armed : ∀ interests, conn.interests = some interests → conn.client.inputClosed = false →
    conn.client.pending < options.maxOutbufBytes.toNat → interests.epollIn = true

variable {storage : Storage} {config : RiskConfig} {options : EpollServerOptions}
  {conn : Connection}

theorem opened_kept {engine : MatchingEngine} (reachable : engine.Reachable storage)
    (generation : UInt32) (room : Nat) :
    Kept storage config options (opened engine generation room) := by
  refine ⟨⟨[], .start reachable generation⟩, rfl, nofun, nofun, ?_⟩
  intro interests same _ _
  rw [← Option.some.inj same]

/-- What a service leaves, of a connection in its course. -/
theorem Kept.serviced (kept : Kept storage config options conn) {events : EventMask}
    {script : List (Turn UInt8)} (fair : Fair config options conn (.service events script)) :
    let io : ClientIo := ⟨⟨conn.socket, script⟩, conn.engine, conn.client⟩
    Serviced storage config options io events (serviceClientEvent config options io events).1
      (serviceClientEvent config options io events).2 := by
  obtain ⟨open', works, interests, _, reports⟩ := fair
  exact @serviceClientEvent_serviced events storage config options
    ⟨⟨conn.socket, script⟩, conn.engine, conn.client⟩ works kept.reached kept.reading
    reports.noError reports.noHangup open'

theorem Kept.step (kept : Kept storage config options conn) {move : Move}
    (fair : Fair config options conn move) :
    Kept storage config options (conn.step config options move) := by
  obtain ⟨produced, reached⟩ := kept.reached
  cases move with
  | peer turn =>
    refine ⟨⟨produced, ?_⟩, kept.reading, ?_, kept.closed, kept.armed⟩
    · simp only [Connection.step, Socket.advance_taken, Socket.advance_accepted]
      exact reached
    · intro closed
      exact (Socket.advance_finished (kept.finished closed) turn).1
  | others command =>
    exact ⟨⟨produced, reached.others command⟩, kept.reading, kept.finished, kept.closed,
      kept.armed⟩
  | service events script =>
    have serviced := kept.serviced fair
    obtain ⟨open', _, interests, _, reports⟩ := fair
    refine ⟨serviced.reached, open', ?_, serviced.closed, ?_⟩
    · intro closed
      rcases serviced.shut closed with before | reported | ⟨_, finished⟩
      · exact (serviced.settled (kept.finished before)).1
      · exact (serviced.settled (reports.finished reported)).1
      · exact finished
    · intro mask some reads below
      obtain ⟨later, served⟩ := serviced.reached
      have flush := (served.reading open').2.2
      rw [serviced.armed mask some]
      exact (congrArg₂ (fun closed flush => !closed && !flush && _) reads flush).trans
        (decide_eq_true below)

/-- Nothing is left to be read once the input is closed. -/
def ReadOut (conn : Connection) : Prop := conn.client.inputClosed = true → conn.socket.queue = []

section

variable (kept : Kept storage config options conn)

include kept

/-- Once the peer has finished, an empty queue stays empty. -/
theorem Kept.queue_empty (finished : conn.socket.finished = true) (empty : conn.socket.queue = [])
    {move : Move} (fair : Fair config options conn move) :
    (conn.step config options move).socket.queue = [] := by
  cases move with
  | peer turn => exact (Socket.advance_finished finished turn).2.trans empty
  | others command => exact empty
  | service events script =>
    have shorter := ((kept.serviced fair).settled finished).2.2
    exact List.suffix_nil.mp (empty ▸ shorter)

/-- An event that reports the half-close below the mark reads all that is queued. -/
theorem Kept.report_drains {events : EventMask} {script : List (Turn UInt8)}
    (fair : Fair config options conn (.service events script))
    (reported : events.epollRdhup = true) (reading : conn.client.inputClosed = false)
    (below : conn.client.pending +
        (conn.client.session.owed config conn.engine conn.socket.queue).length <
      options.maxOutbufBytes.toNat) :
    (conn.step config options (.service events script)).socket.queue = [] := by
  have serviced := kept.serviced fair
  obtain ⟨_, interests, armed, reports⟩ := fair.2
  have finished := reports.finished reported
  by_cases queued : conn.socket.queue = []
  · exact kept.queue_empty finished queued fair
  · have asked := kept.armed interests armed reading (Nat.lt_of_le_of_lt (Nat.le_add_right _ _) below)
    have readable := reports.queued reported asked queued
    rcases serviced.drained readable reading with none | full
    · exact none
    · have due : _ ≤ conn.client.pending + _ := serviced.due finished
      exact absurd (Nat.lt_of_le_of_lt due below) (Nat.not_lt_of_le full)

theorem Kept.step_readOut (empty : conn.ReadOut) {move : Move}
    (fair : Fair config options conn move) (unpaused : Unpaused config options conn move) :
    (conn.step config options move).ReadOut := by
  intro shut
  cases before : conn.client.inputClosed with
  | true => exact kept.queue_empty (kept.finished before) (empty before) fair
  | false =>
    cases move with
    | service events script =>
      rcases (kept.serviced fair).shut shut with earlier | reported | ⟨queue, _⟩
      · cases before.symm.trans earlier
      · rcases unpaused reported before with none | below
        · obtain ⟨_, _, _, reports⟩ := fair.2
          exact kept.queue_empty (reports.finished reported) none fair
        · exact kept.report_drains fair reported before below
      · exact queue
    | _ => cases before.symm.trans shut

theorem Kept.run (empty : conn.ReadOut) {moves : List Move}
    (fair : Along config options (Fair config options) conn moves)
    (unpaused : Along config options (Unpaused config options) conn moves) :
    Kept storage config options (conn.run config options moves) ∧
      (conn.run config options moves).ReadOut := by
  induction moves generalizing conn with
  | nil => exact ⟨kept, empty⟩
  | cons move moves ih =>
    exact ih (kept.step fair.1) (kept.step_readOut empty fair.1 unpaused.1) fair.2 unpaused.2

theorem Kept.drained (queue : conn.socket.queue = []) : Drained storage config options conn := by
  have arrived : conn.socket.arrived = conn.socket.taken := by
    rw [Socket.arrived, queue, List.append_nil]
  obtain ⟨produced, reached⟩ := kept.reached
  refine ⟨queue, ⟨produced, ?_⟩, ?_⟩
  · rw [arrived]
    exact reached
  · rw [arrived]
    exact (reached.reading kept.reading).2.1

end

/-- When a connection is closed, every byte that the peer sent has been read and every complete
frame served, if at the first report of the half-close nothing was queued, or the high-water mark was
too far to be reached by the answers to what was. -/
theorem half_close_drains {engine : MatchingEngine} (reachable : engine.Reachable storage)
    (generation : UInt32) (room : Nat) {moves : List Move}
    (fair : Along config options (Fair config options) (opened engine generation room) moves)
    (unpaused : Along config options (Unpaused config options) (opened engine generation room) moves)
    (closed : ((opened engine generation room).run config options moves).interests = none) :
    Drained storage config options ((opened engine generation room).run config options moves) := by
  have kept := @opened_kept storage config options engine reachable generation room
  obtain ⟨still, empty⟩ := kept.run nofun fair unpaused
  exact still.drained (empty (still.closed closed))

/-- A heartbeat with a token. -/
def beat (token : Nat) : List UInt8 := framed .heartbeat heartbeatBodySize (BigEndian.store 8 token)

def fresh : Connection := opened (MatchingEngine.new .pooled) 1 0

/-- A heartbeat and the half-close behind it, both reported at once; the answer is sent when the
peer has made room. -/
def beatThenFinish : List Move :=
  [.peer { arrives := beat 1, finishes := true },
    .service { epollIn := true, epollRdhup := true } [],
    .peer { frees := 24 },
    .service { epollOut := true, epollRdhup := true } []]

theorem half_close_drains_beat :
    Drained .pooled ⟨100, 10000⟩ {} (fresh.run ⟨100, 10000⟩ {} beatThenFinish) := by
  have fair : Along ⟨100, 10000⟩ {} (Fair ⟨100, 10000⟩ {}) fresh beatThenFinish := by decide
  have unpaused : Along ⟨100, 10000⟩ {} (Unpaused ⟨100, 10000⟩ {}) fresh beatThenFinish :=
    ⟨trivial, fun _ _ => Or.inr (by decide), trivial, fun _ => by decide, trivial⟩
  exact half_close_drains .new 1 0 fair unpaused (by decide)

/-- The answer to the first heartbeat reaches a mark of 24 bytes, so reading is paused. Then the
peer sends a second heartbeat, finishes, and makes room. -/
def beatWhilePaused : List Move :=
  [.peer { arrives := beat 1 },
    .service { epollIn := true } [],
    .peer { arrives := beat 2, finishes := true, frees := 24 },
    .service { epollOut := true, epollRdhup := true } []]

/-- The connection is closed and the second heartbeat was never read. -/
theorem half_close_loses_beat :
    let options : EpollServerOptions := { maxOutbufBytes := 24 }
    let final := fresh.run ⟨100, 10000⟩ options beatWhilePaused
    Along ⟨100, 10000⟩ options (Fair ⟨100, 10000⟩ options) fresh beatWhilePaused ∧
      final.interests = none ∧ final.socket.queue = beat 2 ∧
      final.socket.accepted = wire [.heartbeatAck ⟨1⟩] := by
  exact ⟨by decide, by decide, by decide, by decide⟩

end Connection

end Qsl
