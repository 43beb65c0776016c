import Qsl.Session
import Qsl.StreamSocket

/- One client of the epoll server: its state, and how a readiness event is serviced. -/
namespace Qsl

open StreamSocket

/-- The options that servicing a client or accepting one reads. -/
structure EpollServerOptions where
  maxOutbufBytes : UInt64 := 1048576
  maxOutbufHardBytes : UInt64 := 8388608
  maxAcceptsPerTick : UInt64 := 64
  deriving DecidableEq, Repr

/-- Readiness events, reported or asked for. -/
structure EventMask where
  epollIn : Bool := false
  epollOut : Bool := false
  epollErr : Bool := false
  epollHup : Bool := false
  epollRdhup : Bool := false
  deriving DecidableEq, Repr

structure ClientState where
  generation : UInt32
  session : Session := Session.new
  outbuf : List UInt8 := []
  /-- Bytes at the front of `outbuf` already written to the socket. -/
  sent : Nat := 0
  inputClosed : Bool := false
  closeAfterFlush : Bool := false
  deriving DecidableEq, Repr

namespace ClientState

def pending (client : ClientState) : Nat := client.outbuf.length - client.sent

def dropSentPrefix (client : ClientState) : ClientState :=
  if client.sent > 0 then { client with outbuf := client.outbuf.drop client.sent, sent := 0 }
  else client

end ClientState

def hasPendingOutput (client : ClientState) : Bool := client.pending > 0

inductive SendResult where
  | progress
  | wouldBlock
  | interrupted
  | closed
  | error
  deriving DecidableEq, Repr

/-- What the answer of `send` makes of the client. -/
def sendNextChunk (client : ClientState) : Answer Nat → ClientState × SendResult
  | .ok n =>
    if n > 0 then ({ client with sent := client.sent + n }, .progress) else (client, .closed)
  | .wouldBlock => (client, .wouldBlock)
  | .interrupted => (client, .interrupted)
  | .failed => (client, .error)

/-- The variables of the loop in `send_some`; a result leaves it. -/
structure SendLoop where
  kernel : Kernel UInt8
  client : ClientState
  result : Option Bool := none

def sendSomeStep (loop : SendLoop) : Option SendLoop :=
  if loop.result.isSome then none
  else if loop.client.sent < loop.client.outbuf.length then
    let (answer, kernel) := loop.kernel.send (loop.client.outbuf.drop loop.client.sent)
    let (client, sent) := sendNextChunk loop.client answer
    match sent with
    | .progress => some ⟨kernel, client, none⟩
    | .interrupted => some ⟨kernel, client, none⟩
    | .wouldBlock => some ⟨kernel, client, some true⟩
    | .closed => some ⟨kernel, client, some false⟩
    | .error => some ⟨kernel, client, some false⟩
  else none

/-- The loop, and the buffer cleared when everything was sent. -/
def sendSome (kernel : Kernel UInt8) (client : ClientState) : Kernel UInt8 × ClientState × Bool :=
  let loop := WhileLoop.run sendSomeStep (kernel.script.length + client.pending + 2)
    ⟨kernel, client, none⟩
  match loop.result with
  | some result => (loop.kernel, loop.client, result)
  | none => (loop.kernel, { loop.client with outbuf := [], sent := 0 }, true)

inductive ReadResult where
  | continue
  | stopReading
  | closeNow
  deriving DecidableEq, Repr

def hardOutputLimit (options : EpollServerOptions) : Nat :=
  if options.maxOutbufHardBytes = 0 then sizeMax else options.maxOutbufHardBytes.toNat

section Service

variable (config : RiskConfig) (options : EpollServerOptions)

/-- One read of client bytes through the session, under the hard output cap. -/
def applySessionInput (engine : MatchingEngine) (client : ClientState) (bytes : List UInt8) :
    MatchingEngine × ClientState × ReadResult :=
  let client := client.dropSentPrefix
  let reply := client.session.onBytes config engine bytes client.outbuf (hardOutputLimit options)
  let client := { client with session := reply.session, outbuf := reply.out }
  if reply.status = .outputLimitExceeded then
    if !client.outbuf.isEmpty then
      (reply.engine, { client with closeAfterFlush := true }, .stopReading)
    else (reply.engine, client, .closeNow)
  else if client.session.loggedOut then
    (reply.engine, { client with closeAfterFlush := true }, .stopReading)
  else (reply.engine, client, .continue)

def shouldReadAvailableInput (client : ClientState) (peerHungUp : Bool) : Bool :=
  peerHungUp || client.pending < options.maxOutbufBytes.toNat

/-- What the answer of `read` makes of the client. -/
def readOnce (engine : MatchingEngine) (client : ClientState) :
    Answer (List UInt8) → MatchingEngine × ClientState × ReadResult
  | .ok bytes =>
    if bytes.length > 0 then applySessionInput config options engine client bytes
    else (engine, { client with inputClosed := true }, .stopReading)
  | .interrupted => (engine, client, .continue)
  | .wouldBlock => (engine, client, .stopReading)
  | .failed => (engine, client, .closeNow)

/-- What servicing an event may change. -/
structure ClientIo where
  kernel : Kernel UInt8
  engine : MatchingEngine
  client : ClientState

/-- The variables of the loop in `read_available`; a result leaves it. -/
structure ReadLoop where
  io : ClientIo
  result : Option Bool := none

def readBufferSize : Nat := 4096

def readAvailableStep (peerHungUp : Bool) (loop : ReadLoop) : Option ReadLoop :=
  if loop.result.isSome then none
  else if shouldReadAvailableInput options loop.io.client peerHungUp then
    let (answer, kernel) := loop.io.kernel.read readBufferSize
    let (engine, client, result) := readOnce config options loop.io.engine loop.io.client answer
    match result with
    | .continue => some ⟨⟨kernel, engine, client⟩, none⟩
    | .stopReading => some ⟨⟨kernel, engine, client⟩, some false⟩
    | .closeNow => some ⟨⟨kernel, engine, client⟩, some true⟩
  else none

/-- The answer says that the connection must be closed. -/
def readAvailable (io : ClientIo) (peerHungUp : Bool) : ClientIo × Bool :=
  let loop := WhileLoop.run (readAvailableStep config options peerHungUp) (io.kernel.work + 2)
    ⟨io, none⟩
  (loop.io, loop.result.getD false)

def shouldCloseForFullHangup (events : EventMask) : Bool := events.epollHup

def applyPeerHalfClose (events : EventMask) (client : ClientState) : ClientState :=
  if events.epollRdhup then { client with inputClosed := true } else client

def shouldCloseAfterFlush (client : ClientState) : Bool :=
  !hasPendingOutput client && (client.inputClosed || client.closeAfterFlush)

def wantsReadInterest (client : ClientState) : Bool :=
  !client.inputClosed && !client.closeAfterFlush && client.pending < options.maxOutbufBytes.toNat

def clientInterests (client : ClientState) : EventMask where
  epollRdhup := true
  epollErr := true
  epollHup := true
  epollIn := wantsReadInterest options client
  epollOut := hasPendingOutput client

/-- The interests that are registered next, or none if the client must close now. The call of
`epoll_ctl` succeeds. -/
def rearmClient (client : ClientState) (events : EventMask) : ClientState × Option EventMask :=
  if shouldCloseForFullHangup events then (client, none)
  else
    let client := applyPeerHalfClose events client
    if shouldCloseAfterFlush client then (client, none)
    else (client, some (clientInterests options client))

def drainWritableIfReady (events : EventMask) (io : ClientIo) : ClientIo × Bool :=
  if !events.epollOut then (io, false)
  else
    let (kernel, client, ok) := sendSome io.kernel io.client
    ({ io with kernel := kernel, client := client }, !ok)

def shouldReadClientInput (events : EventMask) (client : ClientState) : Bool :=
  events.epollIn && !client.inputClosed && !client.closeAfterFlush

def readClientInputIfReady (events : EventMask) (io : ClientIo) : ClientIo × Bool :=
  if !shouldReadClientInput events io.client then (io, false)
  else readAvailable config options io events.epollHup

/-- Error, then drain writable backlog, then read, then re-arm; no interests are left for a client
that is to be closed. -/
def serviceClientEvent (io : ClientIo) (events : EventMask) : ClientIo × Option EventMask :=
  if events.epollErr then (io, none)
  else
    let (io, failed) := drainWritableIfReady events io
    if failed then (io, none)
    else
      let (io, failed) := readClientInputIfReady config options events io
      if failed then (io, none)
      else
        let (client, interests) := rearmClient options io.client events
        ({ io with client := client }, interests)

end Service

theorem ClientState.dropSentPrefix_eq (client : ClientState) :
    client.dropSentPrefix =
      { client with outbuf := client.outbuf.drop client.sent, sent := 0 } := by
  unfold dropSentPrefix
  split
  · rfl
  · rename_i none
    have zero : client.sent = 0 := Nat.eq_zero_of_not_pos none
    rw [zero, List.drop_zero, ← zero]

/-- Whatever the session says, its answer is what the client holds. -/
theorem applySessionInput_eq (config : RiskConfig) (options : EpollServerOptions)
    (engine : MatchingEngine) (client : ClientState) (bytes : List UInt8) :
    let reply := client.session.onBytes config engine bytes (client.outbuf.drop client.sent)
      (hardOutputLimit options)
    let next := (applySessionInput config options engine client bytes).2.1
    (applySessionInput config options engine client bytes).1 = reply.engine ∧
      next.session = reply.session ∧ next.outbuf = reply.out ∧ next.sent = 0 ∧
      next.inputClosed = client.inputClosed := by
  unfold applySessionInput
  rw [client.dropSentPrefix_eq]
  simp only
  split
  · split
    · exact ⟨rfl, rfl, rfl, rfl, rfl⟩
    · exact ⟨rfl, rfl, rfl, rfl, rfl⟩
  · split
    · exact ⟨rfl, rfl, rfl, rfl, rfl⟩
    · exact ⟨rfl, rfl, rfl, rfl, rfl⟩

end Qsl
