import Qsl.SessionStreams
import Qsl.StreamSocket

/- The threaded TCP server: the accept loop, and one worker thread for each connection. -/
namespace Qsl

open StreamSocket (Answer)

/-- The options that the accept loop and the workers read. -/
structure TcpServerOptions where
  maxResponseBytes : UInt64 := 8388608
  maxAccepts : UInt64 := 0
  maxActiveConnections : UInt64 := 0
  deriving DecidableEq, Repr

namespace TcpServer

def responseLimit (options : TcpServerOptions) : Nat :=
  if options.maxResponseBytes = 0 then sizeMax else options.maxResponseBytes.toNat

inductive Errno where
  | eintr
  | econnaborted
  | eproto
  | enetdown
  | enoprotoopt
  | ehostdown
  | enonet
  | ehostunreach
  | eopnotsupp
  | enetunreach
  | emfile
  | enfile
  | enobufs
  | enomem
  | other
  deriving DecidableEq, Repr

def transientAcceptErrno (errno : Errno) : Bool :=
  [.eintr, .econnaborted, .eproto, .enetdown, .enoprotoopt, .ehostdown, .enonet, .ehostunreach,
    .eopnotsupp, .enetunreach].contains errno

def fdExhaustedErrno (errno : Errno) : Bool :=
  errno = .emfile || errno = .enfile || errno = .enobufs || errno = .enomem

/-- Where a worker stands: it reads, waits for the gateway's mutex, runs the loop of `on_bytes`
behind it, writes what is left of the response, closes the descriptor or sets its flag. -/
inductive Phase where
  | reading
  | waiting (bytes : List UInt8)
  | serving (inbuf : List UInt8) (intake : Intake)
  | writing (rest : List UInt8) (status : SessionStatus)
  | closing
  | flagging
  | exited

def Phase.flagged : Phase → Bool
  | .exited => true
  | _ => false

/-- A connection with its worker, and what the kernel has read from and sent to its peer. -/
structure Connection where
  fd : Int32
  session : Session := Session.new
  phase : Phase := .reading
  received : List UInt8 := []
  sent : List UInt8 := []

/-- Where the accept loop stands. -/
inductive Acceptor where
  | accepting
  | reaping (conn : Int32) (key : Nat) (i : Nat)
  | joining (left : List Nat)
  | returned (ok : Bool)
  deriving DecidableEq, Repr

/-- Connections are numbered as the kernel hands them out; the table says which one a descriptor is
open for. The vector of workers is the acceptor's. -/
structure State where
  engine : MatchingEngine
  mutex : Option Nat := none
  connections : Nat → Option Connection := fun _ => none
  workers : List Nat := []
  acceptor : Acceptor := .accepting
  accepted : Nat := 0
  arrivals : Nat := 0
  table : Int32 → Option Nat := fun _ => none

def State.put (state : State) (key : Nat) (connection : Connection) : State :=
  { state with connections := Function.update state.connections key (some connection) }

/-- `close`. -/
def State.release (state : State) (fd : Int32) : State :=
  { state with table := Function.update state.table fd none }

def atCapacity (workers : List Nat) (cap : UInt64) : Bool := cap ≠ 0 && workers.length ≥ cap.toNat

def reachedAcceptLimit (accepted : Nat) (maxAccepts : UInt64) : Bool :=
  maxAccepts ≠ 0 && accepted ≥ maxAccepts.toNat

section Worker

variable (config : RiskConfig) (options : TcpServerOptions)

def readBufferSize : Nat := 4096

/-- Behind a response: the checks that end the loop of `serve_connection`. -/
def nextRound (session : Session) (status : SessionStatus) : Phase :=
  if status = .outputLimitExceeded || session.loggedOut then .closing else .reading

/-- What is left of a response is written, if anything. -/
def writeAll (session : Session) (rest : List UInt8) (status : SessionStatus) : Phase :=
  if rest.isEmpty then nextRound session status else .writing rest status

/-- `read_retry`; a kernel gives no more than was asked for. -/
def readStep (connection : Connection) : Answer (List UInt8) → Option Connection
  | .ok bytes =>
    if bytes.isEmpty then some { connection with phase := .closing }
    else if bytes.length ≤ readBufferSize then
      some { connection with phase := .waiting bytes, received := connection.received ++ bytes }
    else none
  | .interrupted => some connection
  | _ => some { connection with phase := .closing }

/-- One call of `send` in `write_all`. -/
def sendStep (connection : Connection) (rest : List UInt8) (status : SessionStatus) :
    Answer Nat → Option Connection
  | .ok n =>
    if n = 0 then some { connection with phase := .closing }
    else if n ≤ rest.length then
      some { connection with
        phase := writeAll connection.session (rest.drop n) status
        sent := connection.sent ++ rest.take n }
    else none
  | .interrupted => some connection
  | _ => some { connection with phase := .closing }

/-- A step behind the mutex: one iteration of the loop in `on_bytes`, or the end of it. -/
def serveStep (state : State) (key : Nat) (connection : Connection) (inbuf : List UInt8)
    (intake : Intake) : State :=
  let intake := { intake with ctx.engine := state.engine }
  match Session.onBytesStep config (responseLimit options) inbuf intake with
  | some next =>
    { state.put key { connection with phase := .serving inbuf next } with
      engine := next.ctx.engine }
  | none =>
    let session := ⟨inbuf.drop intake.consumed, intake.ctx.loggedOut⟩
    { state.put key { connection with
        session := session
        phase := writeAll session intake.ctx.out intake.status } with
      mutex := none }

/-- A step of a worker. It blocks on a mutex that is held; there is none after its exit. -/
def workerStep (state : State) (key : Nat) (connection : Connection)
    (read : Answer (List UInt8)) (send : Answer Nat) : Option State :=
  match connection.phase with
  | .reading => (readStep connection read).map (state.put key)
  | .waiting bytes =>
    if state.mutex.isNone then
      some { state.put key { connection with
          phase := .serving (connection.session.inbuf ++ bytes)
            ⟨⟨state.engine, false, []⟩, 0, .ok⟩ } with
        mutex := some key }
    else none
  | .serving inbuf intake => some (serveStep config options state key connection inbuf intake)
  | .writing rest status => (sendStep connection rest status send).map (state.put key)
  | .closing =>
    some ((state.put key { connection with phase := .flagging }).release connection.fd)
  | .flagging => some (state.put key { connection with phase := .exited })
  | .exited => none

end Worker

section Accept

variable (options : TcpServerOptions)

inductive AcceptAnswer where
  | connection (conn : Int32)
  | failed (errno : Errno)
  deriving DecidableEq, Repr

/-- `accept_retry`; a kernel gives a descriptor that is not open. -/
def acceptRetry (state : State) : AcceptAnswer → Option State
  | .connection conn =>
    if (state.table conn).isNone then
      some { state with
        acceptor := .reaping conn state.arrivals 0
        arrivals := state.arrivals + 1
        table := Function.update state.table conn (some state.arrivals) }
    else none
  | .failed errno =>
    if fdExhaustedErrno errno || transientAcceptErrno errno then some state
    else some { state with acceptor := .joining state.workers }

def spawnWorker (state : State) (conn : Int32) (key : Nat) : State :=
  { state.put key { fd := conn } with workers := state.workers ++ [key] }

/-- Behind `join_finished`: the connection is shed or served. -/
def shedOrSpawn (state : State) (conn : Int32) (key : Nat) : State :=
  if atCapacity state.workers options.maxActiveConnections then
    { state.release conn with acceptor := .accepting }
  else
    let state := spawnWorker state conn key
    let accepted := state.accepted + 1
    { state with
      accepted := accepted
      acceptor := if reachedAcceptLimit accepted options.maxAccepts then .joining state.workers
        else .accepting }

/-- The flag of a worker. -/
def done (state : State) (key : Nat) : Bool :=
  (state.connections key).any (fun connection => connection.phase.flagged)

/-- A step of `serve_listen_socket`. It blocks in `join_all` until the worker has exited. -/
def acceptorStep (state : State) (answer : AcceptAnswer) : Option State :=
  match state.acceptor with
  | .accepting => acceptRetry state answer
  | .reaping conn key i =>
    match state.workers[i]? with
    | some worker =>
      if done state worker then some { state with workers := state.workers.eraseIdx i }
      else some { state with acceptor := .reaping conn key (i + 1) }
    | none => some (shedOrSpawn options state conn key)
  | .joining (worker :: left) =>
    if done state worker then some { state with acceptor := .joining left } else none
  | .joining [] =>
    some { state with
      workers := []
      acceptor := .returned
        (options.maxAccepts = 0 || state.accepted = options.maxAccepts.toNat) }
  | .returned _ => none

end Accept

/-- A thread's turn, with what the kernel answers. -/
inductive Turn where
  | acceptor (answer : AcceptAnswer)
  | worker (key : Nat) (read : Answer (List UInt8)) (send : Answer Nat)

def step (config : RiskConfig) (options : TcpServerOptions) (state : State) : Turn → Option State
  | .acceptor answer => acceptorStep options state answer
  | .worker key read send =>
    (state.connections key).bind (fun connection =>
      workerStep config options state key connection read send)

/-- What some interleaving of the threads makes of the first state. -/
inductive Reachable (config : RiskConfig) (options : TcpServerOptions) (engine : MatchingEngine) :
    State → Prop
  | start : Reachable config options engine { engine := engine }
  | step {state next : State} (reached : Reachable config options engine state) (turn : Turn)
      (taken : step config options state turn = some next) : Reachable config options engine next

end TcpServer

/-- The calls one at a time, each under the response limit. -/
def SharedGateway.serve {ι : Type} [DecidableEq ι] (config : RiskConfig) (limit : Nat)
    (shared : SharedGateway ι) (call : ι × List UInt8) : SharedGateway ι × List UInt8 :=
  let reply := (shared.sessions call.1).onBytes config shared.engine call.2 [] limit
  (⟨reply.engine, Function.update shared.sessions call.1 reply.session⟩, reply.out)

end Qsl
