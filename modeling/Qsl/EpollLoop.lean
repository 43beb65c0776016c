import Qsl.EpollClient
import Mathlib.Order.RelClasses

/- The event loop of the epoll server: accepting, registering, dispatching and closing. -/
namespace Qsl

open StreamSocket

instance fdOrder : IsStrictTotalOrder Int32 (· < ·) where
  irrefl fd := by
    rw [Int32.lt_iff_toInt_lt]
    exact Int.lt_irrefl _
  trans first second third := by
    simp only [Int32.lt_iff_toInt_lt]
    exact Int.lt_trans
  trichotomous first second := by
    simp only [Int32.lt_iff_toInt_lt, ← Int32.toInt_inj]
    omega

def listenerGeneration : UInt32 := 0

def packEventData (fd : Int32) (generation : UInt32) : UInt64 :=
  generation.toUInt64 <<< 32 ||| fd.toUInt32.toUInt64

/-- A readiness event as `epoll_wait` reports it. -/
structure EpollEvent where
  events : EventMask
  data : UInt64

def eventFd (ev : EpollEvent) : Int32 := ev.data.toUInt32.toInt32

def eventGeneration (ev : EpollEvent) : UInt32 := (ev.data >>> 32).toUInt32

/-- The generation, and the next one; the listener's is left out. -/
def nextClientGeneration (nextGeneration : UInt32) : UInt32 × UInt32 :=
  let generation := nextGeneration
  let nextGeneration := nextGeneration + 1
  if nextGeneration = listenerGeneration then (generation, nextGeneration + 1)
  else (generation, nextGeneration)

abbrev ClientMap := OrderedMap Int32 ClientState (· < ·)

/-- The state of a run; the engine is behind the gateway. -/
structure EventLoop where
  listenFd : Int32
  options : EpollServerOptions
  engine : MatchingEngine
  clients : ClientMap := OrderedMap.empty
  nextGeneration : UInt32 := 1
  listenerArmed : Bool := true

/-- The flag says what `epoll_ctl` answers. -/
def setListenerArmed (loop : EventLoop) (armed modified : Bool) : EventLoop :=
  if loop.listenerArmed = armed then loop
  else if modified then { loop with listenerArmed := armed } else loop

def isListenerEvent (ev : EpollEvent) (listenFd : Int32) : Bool :=
  eventGeneration ev = listenerGeneration && eventFd ev = listenFd

/-- `try_emplace`, then the registration with epoll, which the flag answers. -/
def registerClient (loop : EventLoop) (conn : Int32) (added : Bool) : EventLoop × Bool :=
  let (generation, nextGeneration) := nextClientGeneration loop.nextGeneration
  let loop := { loop with nextGeneration := nextGeneration }
  let emplaced := !loop.clients.contains conn
  let loop :=
    if emplaced then
      { loop with clients := loop.clients.insert conn { generation := generation } }
    else loop
  if !emplaced || !added then ({ loop with clients := loop.clients.erase conn }, false)
  else (loop, true)

/-- What `accept4` answers, and the calls of `epoll_ctl` that follow it. -/
inductive AcceptAnswer where
  | connection (conn : Int32) (added : Bool)
  | wouldBlock
  | outOfDescriptors (modified : Bool)
  | transient
  | fatal
  deriving DecidableEq, Repr

inductive AcceptResult where
  | accepted
  | drained
  | retry
  | fatal
  deriving DecidableEq, Repr

/-- A connection that cannot be registered is closed again. -/
def acceptOne (loop : EventLoop) : AcceptAnswer → EventLoop × AcceptResult
  | .connection conn added => ((registerClient loop conn added).1, .accepted)
  | .wouldBlock => (loop, .drained)
  | .outOfDescriptors modified => (setListenerArmed loop false modified, .drained)
  | .transient => (loop, .retry)
  | .fatal => (loop, .fatal)

def acceptsPerTickLimit (options : EpollServerOptions) : Nat :=
  if options.maxAcceptsPerTick = 0 then sizeMax else options.maxAcceptsPerTick.toNat

/-- The loop of `accept_connections`; after the given answers nothing is pending. -/
def acceptPending (limit : Nat) : EventLoop → Nat → List AcceptAnswer → EventLoop × Bool
  | loop, _, [] => (loop, true)
  | loop, accepted, answer :: answers =>
    let (loop, result) := acceptOne loop answer
    match result with
    | .fatal => (loop, false)
    | .drained => (loop, true)
    | .accepted =>
      if accepted + 1 ≥ limit then (loop, true)
      else acceptPending limit loop (accepted + 1) answers
    | .retry => acceptPending limit loop accepted answers

def acceptConnections (loop : EventLoop) (answers : List AcceptAnswer) : EventLoop × Bool :=
  acceptPending (acceptsPerTickLimit loop.options) loop 0 answers

def findLiveClient (loop : EventLoop) (fd : Int32) (generation : UInt32) : Option ClientState :=
  match loop.clients.find? fd with
  | none => none
  | some client => if client.generation ≠ generation then none else some client

/-- What the system calls made while an event is dispatched answer: `accept4`, those on the
client's socket, and the calls of `epoll_ctl`. -/
structure Calls where
  accepts : List AcceptAnswer := []
  kernel : Kernel UInt8 := ⟨{}, []⟩
  modified : Bool := true
  listenerModified : Bool := true

def closeClientEntry (loop : EventLoop) (fd : Int32) (listenerModified : Bool) : EventLoop :=
  setListenerArmed { loop with clients := loop.clients.erase fd } true listenerModified

section Dispatch

variable (config : RiskConfig)

def processClientEvent (loop : EventLoop) (readyEvent : EpollEvent) (calls : Calls) : EventLoop :=
  let fd := eventFd readyEvent
  match findLiveClient loop fd (eventGeneration readyEvent) with
  | none => loop
  | some client =>
    let (io, interests) := serviceClientEvent config loop.options
      ⟨calls.kernel, loop.engine, client⟩ readyEvent.events
    let loop :=
      { loop with engine := io.engine, clients := loop.clients.insert fd io.client }
    if interests.isNone || !calls.modified then
      closeClientEntry loop fd calls.listenerModified
    else loop

def dispatchReadyEvent (loop : EventLoop) (readyEvent : EpollEvent) (calls : Calls) :
    EventLoop × Bool :=
  if isListenerEvent readyEvent loop.listenFd then acceptConnections loop calls.accepts
  else (processClientEvent config loop readyEvent calls, true)

def dispatchReadyEvents : EventLoop → List (EpollEvent × Calls) → EventLoop × Bool
  | loop, [] => (loop, true)
  | loop, (readyEvent, calls) :: later =>
    let (loop, ok) := dispatchReadyEvent config loop readyEvent calls
    if !ok then (loop, false) else dispatchReadyEvents loop later

end Dispatch

end Qsl
