import Qsl.EpollLoop
import Qsl.ClientService

/- Descriptors are reused and generations wrap: which connection a readiness event acts on. -/
namespace Qsl

open OrderedMap
open StreamSocket

theorem packEventData_toNat (fd : Int32) (generation : UInt32) :
    (packEventData fd generation).toNat =
      generation.toNat * 4294967296 + fd.toUInt32.toNat := by
  have low := fd.toUInt32.toNat_lt
  have high := generation.toNat_lt
  have shifted : (generation.toUInt64 <<< 32).toNat = generation.toNat <<< 32 := by
    rw [UInt64.toNat_shiftLeft, UInt32.toNat_toUInt64]
    change generation.toNat <<< 32 % 2 ^ 64 = _
    rw [Nat.shiftLeft_eq]
    omega
  rw [packEventData, UInt64.toNat_or, shifted, UInt32.toNat_toUInt64,
    ← Nat.shiftLeft_add_eq_or_of_lt low, Nat.shiftLeft_eq]

/-- The descriptor and the generation are read back from the word that holds both. -/
theorem packEventData_undone (events : EventMask) (fd : Int32) (generation : UInt32) :
    eventFd ⟨events, packEventData fd generation⟩ = fd ∧
      eventGeneration ⟨events, packEventData fd generation⟩ = generation := by
  have low := fd.toUInt32.toNat_lt
  have packed := packEventData_toNat fd generation
  constructor
  · have same : (packEventData fd generation).toUInt32 = fd.toUInt32 := by
      rw [← UInt32.toNat_inj, UInt64.toNat_toUInt32, packed]
      omega
    rw [eventFd, same]
    rfl
  · rw [eventGeneration, ← UInt32.toNat_inj, UInt64.toNat_toUInt32, UInt64.toNat_shiftRight, packed]
    change (_ >>> 32) % 2 ^ 32 = _
    rw [Nat.shiftRight_eq_div_pow]
    have high := generation.toNat_lt
    omega

/-- The generation of the connection that was accepted after the given number of others, as a
number; the listener's is never reached. -/
def generationOf (ordinal : Nat) : Nat := 1 + ordinal % 4294967295

theorem nextClientGeneration_next {next : UInt32} {ordinal : Nat}
    (current : next.toNat = generationOf ordinal) :
    (nextClientGeneration next).1 = next ∧
      (nextClientGeneration next).2.toNat = generationOf (ordinal + 1) := by
  have bound := next.toNat_lt
  have succ : (next + 1).toNat = (next.toNat + 1) % 2 ^ 32 := UInt32.toNat_add next 1
  unfold generationOf at current ⊢
  unfold nextClientGeneration listenerGeneration
  simp only
  split
  · rename_i wraps
    rw [wraps] at succ ⊢
    have zero : (0 : UInt32).toNat = 0 := rfl
    have one : ((0 : UInt32) + 1).toNat = 1 := rfl
    refine ⟨rfl, ?_⟩
    rw [one]
    omega
  · rename_i onward
    have positive : (next + 1).toNat ≠ 0 := fun zero => onward (UInt32.toNat_inj.mp zero)
    refine ⟨rfl, ?_⟩
    change (next + 1).toNat = _
    omega

/-- Generations repeat only after all of them were given out. -/
theorem generationOf_inj {first second : Nat} (order : first ≤ second)
    (near : second - first < 4294967295) (same : generationOf first = generationOf second) :
    first = second := by
  unfold generationOf at same
  omega

section Generation

variable {config : RiskConfig} {options : EpollServerOptions}

theorem applySessionInput_generation (engine : MatchingEngine) (client : ClientState)
    (bytes : List UInt8) :
    (applySessionInput config options engine client bytes).2.1.generation = client.generation := by
  unfold applySessionInput
  rw [client.dropSentPrefix_eq]
  simp only
  split
  · split <;> rfl
  · split <;> rfl

theorem sendSome_generation (kernel : Kernel UInt8) (client : ClientState) :
    (sendSome kernel client).2.1.generation = client.generation := by
  have kept := @WhileLoop.run_invariant _ sendSomeStep
    (fun loop => loop.client.generation = client.generation) (by
      intro loop next taken same
      obtain ⟨_, _, ⟨_, rfl⟩ | ⟨_, rfl⟩ | rfl | ⟨_, _, _, _, rfl⟩⟩ := sendSomeStep_cases taken
      · exact same
      · exact same
      · exact same
      · exact same)
    ⟨kernel, client, none⟩ rfl (kernel.script.length + client.pending + 2)
  unfold sendSome
  simp only
  split
  · exact kept
  · exact kept

theorem readAvailable_generation (io : ClientIo) (peerHungUp : Bool) :
    (readAvailable config options io peerHungUp).1.client.generation = io.client.generation := by
  refine @WhileLoop.run_invariant _ (readAvailableStep config options peerHungUp)
    (fun loop => loop.io.client.generation = io.client.generation) ?_ ⟨io, none⟩ rfl
    (io.kernel.work + 2)
  intro loop next taken same
  obtain ⟨_, ⟨_, rfl⟩ | ⟨_, rfl⟩ | ⟨_, _, rfl⟩ | ⟨_, rfl⟩ | ⟨bytes, _, _, _, fed, _⟩⟩ :=
    readAvailableStep_cases taken
  · exact same
  · exact same
  · exact same
  · exact same
  · rw [fed]
    exact (applySessionInput_generation loop.io.engine loop.io.client bytes).trans same

/-- Servicing an event leaves the client its generation. -/
theorem serviceClientEvent_generation (io : ClientIo) (events : EventMask) :
    (serviceClientEvent config options io events).1.client.generation = io.client.generation := by
  have drained : (drainWritableIfReady events io).1.client.generation = io.client.generation := by
    unfold drainWritableIfReady
    split
    · rfl
    · exact sendSome_generation io.kernel io.client
  have fed : (readClientInputIfReady config options events
      (drainWritableIfReady events io).1).1.client.generation = io.client.generation := by
    rw [← drained]
    unfold readClientInputIfReady
    split
    · rfl
    · exact readAvailable_generation _ _
  unfold serviceClientEvent rearmClient
  simp only [applyPeerHalfClose_eq]
  split
  · rfl
  · split
    · exact drained
    · split
      · exact fed
      · split
        · exact fed
        · split <;> exact fed

end Generation

/-- The connections of a run, numbered as they were accepted: which one an open descriptor stands
for, and the descriptor and generation that one was registered under. -/
structure Ledger where
  accepted : Nat := 0
  live : Int32 → Option Nat := fun _ => none
  tag : Nat → Option (Int32 × UInt32) := fun _ => none

namespace Ledger

/-- One more connection; it stays open if it could be registered. -/
def accept (ledger : Ledger) (conn : Int32) (generation : UInt32) (added : Bool) : Ledger where
  accepted := ledger.accepted + 1
  live := if added then Function.update ledger.live conn (some ledger.accepted) else ledger.live
  tag :=
    if added then Function.update ledger.tag ledger.accepted (some (conn, generation))
    else ledger.tag

/-- A client whose entry is gone has been closed. -/
def keep (ledger : Ledger) (clients : ClientMap) : Ledger :=
  { ledger with live := fun fd => if clients.contains fd then ledger.live fd else none }

theorem accept_live (ledger : Ledger) (conn : Int32) (generation : UInt32) (fd : Int32) :
    (ledger.accept conn generation true).live fd =
      if fd = conn then some ledger.accepted else ledger.live fd :=
  Function.update_apply ledger.live conn _ fd

theorem accept_tag (ledger : Ledger) (conn : Int32) (generation : UInt32) (ordinal : Nat) :
    (ledger.accept conn generation true).tag ordinal =
      if ordinal = ledger.accepted then some (conn, generation) else ledger.tag ordinal :=
  Function.update_apply ledger.tag ledger.accepted _ ordinal

/-- The tags given out before stay. -/
def Extends (ledger later : Ledger) : Prop :=
  ∀ ordinal tag, ledger.tag ordinal = some tag → later.tag ordinal = some tag

theorem Extends.refl (ledger : Ledger) : ledger.Extends ledger := fun _ _ tagged => tagged

theorem Extends.trans {first second third : Ledger} (early : first.Extends second)
    (late : second.Extends third) : first.Extends third :=
  fun ordinal tag tagged => late ordinal tag (early ordinal tag tagged)

end Ledger

namespace EventLoop

/-- The states of a run. The kernel hands out any descriptor that is not open, and reports
whatever it likes. -/
inductive Reached (config : RiskConfig) : EventLoop → Ledger → Prop
  | start (listenFd : Int32) (options : EpollServerOptions) (engine : MatchingEngine) :
      Reached config { listenFd := listenFd, options := options, engine := engine } {}
  | accept {loop : EventLoop} {ledger : Ledger} (before : Reached config loop ledger)
      (conn : Int32) (unused : ledger.live conn = none) (added : Bool) :
      Reached config (acceptOne loop (.connection conn added)).1
        (ledger.accept conn (nextClientGeneration loop.nextGeneration).1 added)
  | idle {loop : EventLoop} {ledger : Ledger} (before : Reached config loop ledger)
      (answer : AcceptAnswer) (none : ∀ conn added, answer ≠ .connection conn added) :
      Reached config (acceptOne loop answer).1 ledger
  | event {loop : EventLoop} {ledger : Ledger} (before : Reached config loop ledger)
      (readyEvent : EpollEvent) (calls : Calls) :
      Reached config (processClientEvent config loop readyEvent calls)
        (ledger.keep (processClientEvent config loop readyEvent calls).clients)

/-- What holds in every state of a run. -/
structure Kept (loop : EventLoop) (ledger : Ledger) : Prop where
  next : loop.nextGeneration.toNat = generationOf ledger.accepted
  client : ∀ fd client, loop.clients.find? fd = some client →
    ∃ ordinal, ledger.live fd = some ordinal ∧ client.generation.toNat = generationOf ordinal
  live : ∀ fd ordinal, ledger.live fd = some ordinal →
    ordinal < ledger.accepted ∧ (loop.clients.find? fd).isSome = true
  tagged : ∀ ordinal fd generation, ledger.tag ordinal = some (fd, generation) →
    ordinal < ledger.accepted ∧ generation.toNat = generationOf ordinal ∧
      ∀ other, ledger.live fd = some other → ordinal ≤ other

variable {config : RiskConfig} {loop : EventLoop} {ledger : Ledger}

/-- A registration that succeeds adds a client; one that fails adds none. -/
theorem registerClient_spec {conn : Int32} (unused : loop.clients.find? conn = none)
    (added : Bool) :
    let after := (registerClient loop conn added).1
    after.nextGeneration = (nextClientGeneration loop.nextGeneration).2 ∧
      ∀ fd, after.clients.find? fd =
        if fd = conn then
          if added then some { generation := (nextClientGeneration loop.nextGeneration).1 }
          else none
        else loop.clients.find? fd := by
  have absent : loop.clients.contains conn = false := by rw [OrderedMap.contains, unused]; rfl
  unfold registerClient
  cases added with
  | true =>
    simp only [absent, Bool.not_false, if_true, Bool.not_true, Bool.false_or, Bool.false_eq_true,
      if_false]
    exact ⟨trivial, fun fd => find?_insert _ _ fd _⟩
  | false =>
    simp only [absent, Bool.not_false, if_true, Bool.or_true, Bool.false_eq_true, if_false]
    refine ⟨trivial, fun fd => ?_⟩
    rw [find?_erase, find?_insert]
    by_cases same : fd = conn
    · rw [if_pos same, if_pos same]
    · rw [if_neg same, if_neg same, if_neg same]

theorem findLiveClient_some {fd : Int32} {generation : UInt32} {client : ClientState}
    (found : findLiveClient loop fd generation = some client) :
    loop.clients.find? fd = some client ∧ client.generation = generation := by
  unfold findLiveClient at found
  cases present : loop.clients.find? fd with
  | none =>
    rw [present] at found
    cases found
  | some entry =>
    rw [present] at found
    by_cases same : entry.generation = generation
    · simp only [same, ne_eq, not_true_eq_false, if_false] at found
      rw [← Option.some.inj found]
      exact ⟨rfl, same⟩
    · simp only [same, ne_eq, not_false_eq_true, if_true] at found
      cases found

theorem setListenerArmed_eq (loop : EventLoop) (armed modified : Bool) :
    ∃ listenerArmed,
      setListenerArmed loop armed modified = { loop with listenerArmed := listenerArmed } := by
  unfold setListenerArmed
  split
  · exact ⟨loop.listenerArmed, rfl⟩
  · split
    · exact ⟨armed, rfl⟩
    · exact ⟨loop.listenerArmed, rfl⟩

/-- The ways a client event goes: it finds no client, or the client's entry is updated, or
removed. -/
theorem processClientEvent_cases (config : RiskConfig) (loop : EventLoop) (readyEvent : EpollEvent)
    (calls : Calls) :
    let after := processClientEvent config loop readyEvent calls
    findLiveClient loop (eventFd readyEvent) (eventGeneration readyEvent) = none ∧ after = loop ∨
      ∃ client,
        findLiveClient loop (eventFd readyEvent) (eventGeneration readyEvent) = some client ∧
        after.nextGeneration = loop.nextGeneration ∧
        ∃ entry : Option ClientState,
          (∀ serviced, entry = some serviced → serviced.generation = client.generation) ∧
          ∀ fd, after.clients.find? fd =
            if fd = eventFd readyEvent then entry else loop.clients.find? fd := by
  unfold processClientEvent
  simp only
  cases found : findLiveClient loop (eventFd readyEvent) (eventGeneration readyEvent) with
  | none => exact Or.inl ⟨rfl, rfl⟩
  | some client =>
    refine Or.inr ⟨client, rfl, ?_⟩
    simp only
    split
    · obtain ⟨armed, same⟩ := setListenerArmed_eq
        { loop with
          engine := (serviceClientEvent config loop.options ⟨calls.kernel, loop.engine, client⟩
            readyEvent.events).1.engine
          clients := (loop.clients.insert (eventFd readyEvent)
            (serviceClientEvent config loop.options ⟨calls.kernel, loop.engine, client⟩
              readyEvent.events).1.client).erase (eventFd readyEvent) } true
        calls.listenerModified
      rw [closeClientEntry, same]
      refine ⟨rfl, none, ?_, ?_⟩
      · intro serviced present
        cases present
      · intro fd
        rw [find?_erase, find?_insert]
        split <;> rfl
    · refine ⟨rfl, some _, ?_, fun fd => find?_insert _ _ fd _⟩
      intro serviced same
      rw [← Option.some.inj same]
      exact serviceClientEvent_generation _ _

namespace Kept

theorem start (listenFd : Int32) (options : EpollServerOptions) (engine : MatchingEngine) :
    Kept { listenFd := listenFd, options := options, engine := engine } {} :=
  ⟨rfl, nofun, nofun, nofun⟩

section

variable (kept : Kept loop ledger) {conn : Int32} (none : ledger.live conn = none)

include kept none

theorem unused : loop.clients.find? conn = .none := by
  cases found : loop.clients.find? conn with
  | none => rfl
  | some client =>
    obtain ⟨ordinal, live, _⟩ := kept.client conn client found
    cases none.symm.trans live

/-- The descriptor now stands for the connection, under the generation that was next. -/
theorem register :
    Kept (registerClient loop conn true).1
      (ledger.accept conn (nextClientGeneration loop.nextGeneration).1 true) := by
  obtain ⟨generation, next⟩ := nextClientGeneration_next kept.next
  obtain ⟨later, found⟩ := registerClient_spec (kept.unused none) true
  simp only [generation, if_true] at found
  rw [generation]
  refine ⟨later ▸ next, ?_, ?_, ?_⟩
  · intro fd client present
    rw [found] at present
    rw [Ledger.accept_live]
    by_cases same : fd = conn
    · rw [if_pos same] at present
      rw [if_pos same, ← Option.some.inj present]
      exact ⟨ledger.accepted, rfl, kept.next⟩
    · rw [if_neg same] at present
      rw [if_neg same]
      exact kept.client fd client present
  · intro fd ordinal live
    rw [Ledger.accept_live] at live
    rw [found]
    by_cases same : fd = conn
    · rw [if_pos same] at live
      rw [if_pos same, ← Option.some.inj live]
      exact ⟨Nat.lt_succ_self _, rfl⟩
    · rw [if_neg same] at live
      obtain ⟨before, present⟩ := kept.live fd ordinal live
      rw [if_neg same]
      exact ⟨Nat.lt_succ_of_lt before, present⟩
  · intro ordinal fd tag tagged
    rw [Ledger.accept_tag] at tagged
    rw [Ledger.accept_live]
    by_cases last : ordinal = ledger.accepted
    · rw [if_pos last] at tagged
      obtain ⟨rfl, rfl⟩ := Prod.mk.inj (Option.some.inj tagged)
      rw [if_pos rfl, last]
      exact ⟨Nat.lt_succ_self _, kept.next, fun other live => Nat.le_of_eq (Option.some.inj live)⟩
    · rw [if_neg last] at tagged
      obtain ⟨before, current, order⟩ := kept.tagged ordinal fd tag tagged
      refine ⟨Nat.lt_succ_of_lt before, current, ?_⟩
      intro other live
      by_cases same : fd = conn
      · -- whoever has the descriptor now came after
        rw [if_pos same] at live
        rw [← Option.some.inj live]
        exact Nat.le_of_lt before
      · rw [if_neg same] at live
        exact order other live

/-- A registration that fails uses up a generation all the same. -/
theorem refuse (generation : UInt32) :
    Kept (registerClient loop conn false).1 (ledger.accept conn generation false) := by
  obtain ⟨_, next⟩ := nextClientGeneration_next kept.next
  obtain ⟨later, found⟩ := registerClient_spec (kept.unused none) false
  have same (fd : Int32) :
      (registerClient loop conn false).1.clients.find? fd = loop.clients.find? fd := by
    rw [found]
    split
    · rename_i here
      rw [here, kept.unused none]
      rfl
    · rfl
  refine ⟨later ▸ next, ?_, ?_, ?_⟩
  · intro fd client present
    rw [same] at present
    exact kept.client fd client present
  · intro fd ordinal live
    obtain ⟨before, present⟩ := kept.live fd ordinal live
    rw [same]
    exact ⟨Nat.lt_succ_of_lt before, present⟩
  · intro ordinal fd tag tagged
    obtain ⟨before, current, order⟩ := kept.tagged ordinal fd tag tagged
    exact ⟨Nat.lt_succ_of_lt before, current, order⟩

end

theorem idle (kept : Kept loop ledger) {answer : AcceptAnswer}
    (none : ∀ conn added, answer ≠ .connection conn added) :
    Kept (acceptOne loop answer).1 ledger := by
  cases answer with
  | connection conn added => exact absurd rfl (none conn added)
  | outOfDescriptors modified =>
    obtain ⟨armed, same⟩ := setListenerArmed_eq loop false modified
    rw [acceptOne, same]
    exact ⟨kept.next, kept.client, kept.live, kept.tagged⟩
  | _ => exact kept

theorem keep_live {clients : ClientMap} {fd : Int32} {ordinal : Nat}
    (live : (ledger.keep clients).live fd = some ordinal) :
    (clients.find? fd).isSome = true ∧ ledger.live fd = some ordinal := by
  unfold Ledger.keep at live
  simp only at live
  split at live
  · rename_i present
    exact ⟨present, live⟩
  · cases live

/-- Entries may go and clients may change, but each keeps its generation. -/
theorem keep (kept : Kept loop ledger) {after : EventLoop}
    (next : after.nextGeneration = loop.nextGeneration)
    (entries : ∀ fd client, after.clients.find? fd = some client →
      ∃ before, loop.clients.find? fd = some before ∧ client.generation = before.generation) :
    Kept after (ledger.keep after.clients) := by
  refine ⟨next ▸ kept.next, ?_, ?_, ?_⟩
  · intro fd client present
    obtain ⟨before, found, same⟩ := entries fd client present
    obtain ⟨ordinal, live, generation⟩ := kept.client fd before found
    refine ⟨ordinal, ?_, same ▸ generation⟩
    have contained : after.clients.contains fd = true := by
      rw [OrderedMap.contains, present]
      rfl
    exact (if_pos contained).trans live
  · intro fd ordinal live
    obtain ⟨present, before⟩ := keep_live live
    exact ⟨(kept.live fd ordinal before).1, present⟩
  · intro ordinal fd generation tagged
    obtain ⟨before, current, order⟩ := kept.tagged ordinal fd generation tagged
    exact ⟨before, current, fun other live => order other (keep_live live).2⟩

theorem event (kept : Kept loop ledger) (readyEvent : EpollEvent) (calls : Calls) :
    Kept (processClientEvent config loop readyEvent calls)
      (ledger.keep (processClientEvent config loop readyEvent calls).clients) := by
  rcases processClientEvent_cases config loop readyEvent calls with
    ⟨_, same⟩ | ⟨client, found, next, entry, generation, clients⟩
  · rw [same]
    exact kept.keep rfl fun fd client present => ⟨client, present, rfl⟩
  · refine kept.keep next ?_
    intro fd serviced present
    rw [clients] at present
    by_cases here : fd = eventFd readyEvent
    · rw [if_pos here] at present
      rw [here]
      exact ⟨client, (findLiveClient_some found).1, generation serviced present⟩
    · rw [if_neg here] at present
      exact ⟨serviced, present, rfl⟩

end Kept

theorem Reached.kept (reached : Reached config loop ledger) : Kept loop ledger := by
  induction reached with
  | start listenFd options engine => exact Kept.start listenFd options engine
  | accept before conn unused added ih =>
    cases added with
    | true => exact ih.register unused
    | false => exact ih.refuse unused _
  | idle before answer none ih => exact ih.idle none
  | event before readyEvent calls ih => exact ih.event readyEvent calls

section

variable (kept : Kept loop ledger) {ordinal : Nat} {fd : Int32} {generation : UInt32}
  (tagged : ledger.tag ordinal = some (fd, generation))

include kept tagged

/-- The client that a tag finds is the one that was registered under it. -/
theorem Kept.find_tagged (recent : ledger.accepted - (ordinal + 1) < 4294967295)
    {client : ClientState} (found : findLiveClient loop fd generation = some client) :
    ledger.live fd = some ordinal := by
  obtain ⟨present, same⟩ := findLiveClient_some found
  obtain ⟨before, current, order⟩ := kept.tagged ordinal fd generation tagged
  obtain ⟨other, live, number⟩ := kept.client fd client present
  have later := order other live
  have bound := (kept.live fd other live).1
  have alike : generationOf ordinal = generationOf other := by rw [← current, ← same, number]
  rw [live, generationOf_inj later (by omega) alike]

/-- A generation that was given to a client is never the listener's. -/
theorem Kept.not_listener (events : EventMask) (listenFd : Int32) :
    isListenerEvent ⟨events, packEventData fd generation⟩ listenFd = false := by
  have current := (kept.tagged ordinal fd generation tagged).2.1
  have other : generation ≠ listenerGeneration := by
    intro zero
    rw [zero] at current
    unfold generationOf at current
    have none : listenerGeneration.toNat = 0 := rfl
    omega
  rw [isListenerEvent, (packEventData_undone events fd generation).2, decide_eq_false other,
    Bool.false_and]

end

/-- Stale readiness events never touch another connection. What was packed is read back. In every
state of a run, an event under the tag of a connection is not the listener's; and if fewer than
`2^32 - 1` connections were accepted since, it finds only that connection, leaves the clients of
all others as they are, and does nothing if that connection is closed. -/
theorem stale_events_ignored :
    (∀ (events : EventMask) (fd : Int32) (generation : UInt32),
        eventFd ⟨events, packEventData fd generation⟩ = fd ∧
          eventGeneration ⟨events, packEventData fd generation⟩ = generation) ∧
      ∀ (config : RiskConfig) (loop : EventLoop) (ledger : Ledger), Reached config loop ledger →
        ∀ (ordinal : Nat) (fd : Int32) (generation : UInt32),
          ledger.tag ordinal = some (fd, generation) → ∀ (events : EventMask) (calls : Calls),
          let readyEvent : EpollEvent := ⟨events, packEventData fd generation⟩
          isListenerEvent readyEvent loop.listenFd = false ∧
            (ledger.accepted - (ordinal + 1) < 2 ^ 32 - 1 →
              (∀ client, findLiveClient loop (eventFd readyEvent) (eventGeneration readyEvent) =
                  some client → ledger.live fd = some ordinal) ∧
              (∀ other, ledger.live other ≠ some ordinal →
                (dispatchReadyEvent config loop readyEvent calls).1.clients.find? other =
                  loop.clients.find? other) ∧
              ((∀ other, ledger.live other ≠ some ordinal) →
                dispatchReadyEvent config loop readyEvent calls = (loop, true))) := by
  refine ⟨packEventData_undone, ?_⟩
  intro config loop ledger reached ordinal fd generation tagged events calls
  have kept := reached.kept
  have client := kept.not_listener tagged events loop.listenFd
  obtain ⟨fd_eq, generation_eq⟩ := packEventData_undone events fd generation
  refine ⟨client, ?_⟩
  intro recent
  have finds (entry : ClientState) (found : findLiveClient loop fd generation = some entry) :
      ledger.live fd = some ordinal := kept.find_tagged tagged recent found
  have dispatch : dispatchReadyEvent config loop ⟨events, packEventData fd generation⟩ calls =
      (processClientEvent config loop ⟨events, packEventData fd generation⟩ calls, true) := by
    rw [dispatchReadyEvent, client, if_neg Bool.false_ne_true]
  have ways := processClientEvent_cases config loop ⟨events, packEventData fd generation⟩ calls
  simp only [fd_eq, generation_eq] at ways ⊢
  rw [dispatch]
  refine ⟨finds, ?_, ?_⟩
  · intro other elsewhere
    rcases ways with ⟨_, same⟩ | ⟨entry, found, _, _, _, clients⟩
    · rw [same]
    · have apart : other ≠ fd := by
        intro here
        rw [here] at elsewhere
        exact elsewhere (finds entry found)
      rw [clients, if_neg apart]
  · intro gone
    rcases ways with ⟨_, same⟩ | ⟨entry, found, _⟩
    · rw [same]
    · exact absurd (finds entry found) (gone fd)

/-- A connection on a descriptor that an earlier one had; the earlier one's client was closed. -/
def reused : EventLoop :=
  let first := (acceptOne
    { listenFd := 3, options := {}, engine := MatchingEngine.new .pooled } (.connection 5 true)).1
  let closed := processClientEvent ⟨100, 10000⟩ first
    ⟨{ epollErr := true }, packEventData 5 1⟩ {}
  (acceptOne closed (.connection 5 true)).1

theorem stale_events_ignored_reused :
    (dispatchReadyEvent ⟨100, 10000⟩ reused ⟨{ epollIn := true }, packEventData 5 1⟩
      {}).1.clients.find? 5 = some { generation := 2 } := by
  have reached : Reached ⟨100, 10000⟩ reused _ :=
    .accept (.event (.accept (.start 3 {} (MatchingEngine.new .pooled)) 5 rfl true)
      ⟨{ epollErr := true }, packEventData 5 1⟩ {}) 5 (by decide) true
  have ignored := (stale_events_ignored.2 _ _ _ reached 0 5 1 (by decide) { epollIn := true } {}).2
    (by decide)
  rw [ignored.2.1 5 (by decide)]
  decide

/-- `accept4` answers with descriptors that are not open. -/
def Opens : EventLoop → List AcceptAnswer → Prop
  | _, [] => True
  | loop, answer :: answers =>
    (∀ conn added, answer = .connection conn added → loop.clients.find? conn = none) ∧
      Opens (acceptOne loop answer).1 answers

/-- The same for all the events of a batch. -/
def BatchOpens (config : RiskConfig) : EventLoop → List (EpollEvent × Calls) → Prop
  | _, [] => True
  | loop, (readyEvent, calls) :: later =>
    Opens loop calls.accepts ∧
      BatchOpens config (dispatchReadyEvent config loop readyEvent calls).1 later

namespace Reached

/-- One more answer of `accept4`. -/
theorem acceptOne (reached : Reached config loop ledger) {answer : AcceptAnswer}
    (opens : ∀ conn added, answer = .connection conn added → loop.clients.find? conn = none) :
    ∃ later, Reached config (Qsl.acceptOne loop answer).1 later ∧ ledger.Extends later := by
  have kept := reached.kept
  by_cases conn : ∃ conn added, answer = .connection conn added
  · obtain ⟨conn, added, rfl⟩ := conn
    have unused : ledger.live conn = none := by
      cases live : ledger.live conn with
      | none => rfl
      | some ordinal =>
        have present := (kept.live conn ordinal live).2
        rw [opens conn added rfl] at present
        cases present
    refine ⟨_, reached.accept conn unused added, ?_⟩
    intro ordinal tag tagged
    have before := (kept.tagged ordinal tag.1 tag.2 tagged).1
    cases added with
    | false => exact tagged
    | true =>
      rw [Ledger.accept_tag, if_neg (Nat.ne_of_lt before)]
      exact tagged
  · refine ⟨ledger, reached.idle answer ?_, Ledger.Extends.refl ledger⟩
    intro other added same
    exact conn ⟨other, added, same⟩

theorem acceptPending (reached : Reached config loop ledger) (limit : Nat) (accepted : Nat)
    {answers : List AcceptAnswer} (opens : Opens loop answers) :
    ∃ later, Reached config (Qsl.acceptPending limit loop accepted answers).1 later ∧
      ledger.Extends later := by
  induction answers generalizing loop ledger accepted with
  | nil => exact ⟨ledger, reached, Ledger.Extends.refl ledger⟩
  | cons answer answers ih =>
    obtain ⟨next, now, kept⟩ := reached.acceptOne opens.1
    unfold Qsl.acceptPending
    simp only
    have onward (count : Nat) : ∃ later,
        Reached config (Qsl.acceptPending limit (Qsl.acceptOne loop answer).1 count answers).1
          later ∧ ledger.Extends later := by
      obtain ⟨later, after, still⟩ := ih now count opens.2
      exact ⟨later, after, kept.trans still⟩
    split
    · exact ⟨next, now, kept⟩
    · exact ⟨next, now, kept⟩
    · split
      · exact ⟨next, now, kept⟩
      · exact onward (accepted + 1)
    · exact onward accepted

/-- What the code dispatches is a run in the sense above. -/
theorem dispatchReadyEvents (reached : Reached config loop ledger)
    {batch : List (EpollEvent × Calls)} (opens : BatchOpens config loop batch) :
    ∃ later, Reached config (Qsl.dispatchReadyEvents config loop batch).1 later ∧
      ledger.Extends later := by
  induction batch generalizing loop ledger with
  | nil => exact ⟨ledger, reached, Ledger.Extends.refl ledger⟩
  | cons first batch ih =>
    obtain ⟨readyEvent, calls⟩ := first
    have one : ∃ later, Reached config (dispatchReadyEvent config loop readyEvent calls).1 later ∧
        ledger.Extends later := by
      unfold dispatchReadyEvent
      split
      · exact reached.acceptPending _ 0 opens.1
      · exact ⟨_, reached.event readyEvent calls, Ledger.Extends.refl ledger⟩
    obtain ⟨next, now, kept⟩ := one
    unfold Qsl.dispatchReadyEvents
    simp only
    split
    · exact ⟨next, now, kept⟩
    · obtain ⟨later, after, still⟩ := ih now opens.2
      exact ⟨later, after, kept.trans still⟩

end Reached

end EventLoop

end Qsl
