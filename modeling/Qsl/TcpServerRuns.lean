import Qsl.TcpServer

/- What holds of the threaded server in whatever order its threads take their turns. -/
namespace Qsl.TcpServer

open List Function Option
open Reassembly (streamOf sentOn streamOf_snoc sentOn_append sentOn_alike)
open StreamSocket (Answer)
open Protocol (framed heartbeatBodySize)

variable {read : Answer (List UInt8)} {send : Answer Nat} {conn : Int32}

/-- The worker is behind the mutex. -/
def Phase.serves : Phase → Bool
  | .serving _ _ => true
  | _ => false

/-- The worker has not closed its descriptor yet. -/
def Phase.holdsFd : Phase → Bool
  | .flagging | .exited => false
  | _ => true

/-- The worker is in a call of `read` or `send`. -/
def Phase.inCall : Phase → Bool
  | .reading | .writing _ _ => true
  | _ => false

/-- What a step outside the mutex can make of a connection. -/
inductive IoStep (c : Connection) : Connection → Prop
  | retried (calling : c.phase.inCall = true) : IoStep c c
  | ended (calling : c.phase.inCall = true) : IoStep c { c with phase := .closing }
  | received (bytes : List UInt8) (reading : c.phase = .reading) :
      IoStep c { c with phase := .waiting bytes, received := c.received ++ bytes }
  | sent (n : Nat) (rest : List UInt8) (status : SessionStatus)
      (writing : c.phase = .writing rest status) :
      IoStep c { c with
        phase := writeAll c.session (rest.drop n) status, sent := c.sent ++ rest.take n }
  | flagged (flagging : c.phase = .flagging) : IoStep c { c with phase := .exited }

theorem readStep_io {c c' : Connection} (taken : readStep c read = some c')
    (reading : c.phase = .reading) : IoStep c c' := by
  have calling : c.phase.inCall = true := by rw [reading]; rfl
  unfold readStep at taken
  split at taken
  · split at taken
    · cases taken
      exact .ended calling
    · split at taken
      · cases taken
        exact .received _ reading
      · cases taken
  · cases taken
    exact .retried calling
  · cases taken
    exact .ended calling

theorem sendStep_io {c c' : Connection} {rest : List UInt8} {status : SessionStatus}
    (taken : sendStep c rest status send = some c') (writing : c.phase = .writing rest status) :
    IoStep c c' := by
  have calling : c.phase.inCall = true := by rw [writing]; rfl
  unfold sendStep at taken
  split at taken
  · split at taken
    · cases taken
      exact .ended calling
    · split at taken
      · cases taken
        exact .sent _ rest status writing
      · cases taken
  · cases taken
    exact .retried calling
  · cases taken
    exact .ended calling

/-- Of the connections only this one changes. -/
def Puts (state next : State) (key : Nat) (c : Connection) : Prop :=
  ∀ other, next.connections other = if other = key then some c else state.connections other

theorem puts_update {state next : State} {key : Nat} {c : Connection}
    (same : next.connections = Function.update state.connections key (some c)) :
    Puts state next key c :=
  fun _ => same ▸ update_apply _ _ _ _

section Steps

variable {config : RiskConfig} {options : TcpServerOptions} {state next : State} {key : Nat}
  {c : Connection}

/-- All that a worker's step can be. -/
theorem workerStep_cases (taken : workerStep config options state key c read send = some next) :
    (∃ c', IoStep c c' ∧ next = state.put key c') ∨
      (c.phase = .closing ∧
        next = (state.put key { c with phase := .flagging }).release c.fd) ∨
      (∃ bytes, c.phase = .waiting bytes ∧ state.mutex = none ∧
        next = { state.put key { c with
            phase := .serving (c.session.inbuf ++ bytes) ⟨⟨state.engine, false, []⟩, 0, .ok⟩ } with
          mutex := some key }) ∨
      ∃ inbuf intake, c.phase = .serving inbuf intake ∧
        next = serveStep config options state key c inbuf intake := by
  unfold workerStep at taken
  split at taken
  · rename_i reading
    obtain ⟨c', moved, rfl⟩ := map_eq_some_iff.mp taken
    exact .inl ⟨c', readStep_io moved reading, rfl⟩
  · rename_i bytes waiting
    split at taken
    · rename_i free
      cases taken
      exact .inr (.inr (.inl ⟨bytes, waiting, isNone_iff_eq_none.mp free, rfl⟩))
    · cases taken
  · rename_i inbuf intake serving
    cases taken
    exact .inr (.inr (.inr ⟨inbuf, intake, serving, rfl⟩))
  · rename_i rest status writing
    obtain ⟨c', moved, rfl⟩ := map_eq_some_iff.mp taken
    exact .inl ⟨c', sendStep_io moved writing, rfl⟩
  · rename_i closing
    cases taken
    exact .inr (.inl ⟨closing, rfl⟩)
  · rename_i flagging
    cases taken
    exact .inl ⟨_, .flagged flagging, rfl⟩
  · cases taken

theorem serveStep_cases (state : State) (key : Nat) (c : Connection) (inbuf : List UInt8)
    (intake : Intake) :
    let held : Intake := { intake with ctx.engine := state.engine }
    let next := serveStep config options state key c inbuf intake
    (∃ after, Session.onBytesStep config (responseLimit options) inbuf held = some after ∧
        next = { state.put key { c with phase := .serving inbuf after } with
          engine := after.ctx.engine }) ∨
      (Session.onBytesStep config (responseLimit options) inbuf held = none ∧
        next = { state.put key { c with
            session := ⟨inbuf.drop held.consumed, held.ctx.loggedOut⟩
            phase := writeAll ⟨inbuf.drop held.consumed, held.ctx.loggedOut⟩ held.ctx.out
              held.status } with
          mutex := none }) := by
  intro held next
  have unfolded : next = serveStep config options state key c inbuf intake := rfl
  unfold serveStep at unfolded
  dsimp only at unfolded
  cases taken : Session.onBytesStep config (responseLimit options) inbuf held with
  | some after =>
    refine .inl ⟨after, rfl, unfolded.trans ?_⟩
    rw [show Session.onBytesStep config (responseLimit options) inbuf _ = _ from taken]
  | none =>
    refine .inr ⟨rfl, unfolded.trans ?_⟩
    rw [show Session.onBytesStep config (responseLimit options) inbuf _ = _ from taken]

end Steps

section

variable (session : Session) (rest : List UInt8) (status : SessionStatus)

include session rest status

theorem writeAll_phase :
    writeAll session rest status = .writing rest status ∧ rest ≠ [] ∨
      rest = [] ∧ (writeAll session rest status = .closing ∨
        writeAll session rest status = .reading ∧ session.loggedOut = false) := by
  unfold writeAll nextRound
  cases rest with
  | nil =>
    refine .inr ⟨rfl, ?_⟩
    rw [if_pos isEmpty_nil]
    split
    · exact .inl rfl
    · rename_i going
      rw [Bool.or_eq_true, not_or] at going
      exact .inr ⟨rfl, Bool.eq_false_of_not_eq_true going.2⟩
  | cons byte rest => exact .inl ⟨rfl, cons_ne_nil _ _⟩

theorem writeAll_holdsFd : (writeAll session rest status).holdsFd = true := by
  rcases writeAll_phase session rest status with ⟨phase, -⟩ | ⟨-, phase | ⟨phase, -⟩⟩ <;>
    rw [phase] <;> rfl

theorem writeAll_serves : (writeAll session rest status).serves = false := by
  rcases writeAll_phase session rest status with ⟨phase, -⟩ | ⟨-, phase | ⟨phase, -⟩⟩ <;>
    rw [phase] <;> rfl

end

section Descriptors

variable (options : TcpServerOptions)

/-- Descriptors, workers and the vector that the acceptor keeps of them. -/
structure Owned (state : State) : Prop where
  holds : ∀ key c, state.connections key = some c → c.phase.holdsFd = true →
    state.table c.fd = some key
  owner : ∀ fd key, state.table fd = some key →
    (∃ c, state.connections key = some c ∧ c.fd = fd ∧ c.phase.holdsFd = true) ∨
      ∃ i, state.acceptor = .reaping fd key i
  numbered : ∀ key, state.connections key ≠ none → key < state.arrivals
  pending : ∀ conn key i, state.acceptor = .reaping conn key i →
    state.connections key = none ∧ key < state.arrivals ∧ state.table conn = some key
  listed : ∀ key, state.connections key ≠ none → done state key = false → key ∈ state.workers
  capped : options.maxActiveConnections ≠ 0 →
    state.workers.length ≤ options.maxActiveConnections.toNat
  joining : ∀ left, state.acceptor = .joining left → ∀ key ∈ state.workers, key ∉ left →
    done state key = true
  returned : ∀ ok, state.acceptor = .returned ok →
    (∀ key, state.connections key ≠ none → done state key = true) ∧
      (ok = true ↔ options.maxAccepts = 0 ∨ state.accepted = options.maxAccepts.toNat)

variable {options} {config : RiskConfig} {state next : State} {key : Nat} {c c' : Connection}

theorem IoStep.own (moved : IoStep c c') :
    c'.fd = c.fd ∧ c'.phase.holdsFd = c.phase.holdsFd ∧ c.phase.flagged = false := by
  have open_ : ∀ {phase : Phase}, phase.inCall = true →
      phase.holdsFd = true ∧ phase.flagged = false := by
    intro phase calling
    cases phase <;> first | exact ⟨rfl, rfl⟩ | cases calling
  cases moved with
  | retried calling => exact ⟨rfl, rfl, (open_ calling).2⟩
  | ended calling => exact ⟨rfl, (open_ calling).1.symm, (open_ calling).2⟩
  | received bytes reading =>
    rw [reading]
    exact ⟨rfl, rfl, rfl⟩
  | sent n rest status writing =>
    rw [writing]
    exact ⟨rfl, writeAll_holdsFd _ _ _, rfl⟩
  | flagged flagging =>
    rw [flagging]
    exact ⟨rfl, rfl, rfl⟩

/-- A worker's step is on its own connection; it may close the descriptor. -/
structure OwnStep (state next : State) (key : Nat) (c c' : Connection) : Prop where
  connections : Puts state next key c'
  fd : c'.fd = c.fd
  table : (∀ fd, next.table fd = state.table fd) ∧ c'.phase.holdsFd = c.phase.holdsFd ∨
    (∀ fd, next.table fd = if fd = c.fd then none else state.table fd) ∧
      c.phase.holdsFd = true ∧ c'.phase.holdsFd = false
  rest : next.workers = state.workers ∧ next.acceptor = state.acceptor ∧
    next.accepted = state.accepted ∧ next.arrivals = state.arrivals
  going : c.phase.flagged = false

theorem workerStep_own (taken : workerStep config options state key c read send = some next) :
    ∃ c', OwnStep state next key c c' := by
  rcases workerStep_cases taken with ⟨c', moved, rfl⟩ | ⟨closing, rfl⟩ | ⟨bytes, waiting, -, rfl⟩ |
    ⟨inbuf, intake, serving, rfl⟩
  · obtain ⟨fd, held, going⟩ := moved.own
    exact ⟨c', puts_update rfl, fd, .inl ⟨fun _ => rfl, held⟩, ⟨rfl, rfl, rfl, rfl⟩, going⟩
  · exact ⟨_, puts_update rfl, rfl, .inr ⟨fun _ => update_apply _ _ _ _, by rw [closing]; rfl, rfl⟩,
      ⟨rfl, rfl, rfl, rfl⟩, by rw [closing]; rfl⟩
  · exact ⟨_, puts_update rfl, rfl, .inl ⟨fun _ => rfl, by rw [waiting]; rfl⟩, ⟨rfl, rfl, rfl, rfl⟩,
      by rw [waiting]; rfl⟩
  · have going : c.phase.flagged = false := by rw [serving]; rfl
    rcases serveStep_cases state key c inbuf intake with ⟨after, -, same⟩ | ⟨-, same⟩
    · rw [same]
      exact ⟨_, puts_update rfl, rfl, .inl ⟨fun _ => rfl, by rw [serving]; rfl⟩,
        ⟨rfl, rfl, rfl, rfl⟩, going⟩
    · rw [same]
      refine ⟨_, puts_update rfl, rfl, .inl ⟨fun _ => rfl, ?_⟩, ⟨rfl, rfl, rfl, rfl⟩, going⟩
      rw [serving]
      exact writeAll_holdsFd _ _ _

section

variable (owned : Owned options state)

include owned

theorem Owned.own (found : state.connections key = some c) (own : OwnStep state next key c c') :
    Owned options next := by
  obtain ⟨holds, owner, numbered, pending, listed, capped, joining, returned⟩ := owned
  obtain ⟨connections, fd, table, rest, going⟩ := own
  constructor
  case holds =>
    intro other c₁ here held
    rw [connections other] at here
    split at here
    · rename_i this
      cases here
      rcases table with ⟨same, kept⟩ | ⟨-, -, closed⟩
      · rw [same, fd, this]
        exact holds key c found (kept ▸ held)
      · rw [closed] at held
        cases held
    · rename_i differ
      have still := holds other c₁ here held
      rcases table with ⟨same, -⟩ | ⟨closed, holding, -⟩
      · rw [same]
        exact still
      · -- the descriptor that is closed was open for this connection, not for the other
        rw [closed, if_neg, still]
        intro shared
        rw [shared, holds key c found holding] at still
        exact differ (Option.some.inj still).symm
  case owner =>
    intro fd₁ other opened
    rw [rest.2.1]
    have before : state.table fd₁ = some other := by grind
    rcases owner fd₁ other before with ⟨c₁, here, same, held⟩ | reaping
    · refine .inl ?_
      by_cases this : other = key
      · subst this
        cases here.symm.trans found
        exact ⟨c', (connections other).trans (if_pos rfl), fd.trans same, by grind⟩
      · exact ⟨c₁, (connections other).trans ((if_neg this).trans here), same, held⟩
    · exact .inr reaping
  all_goals grind [done, Puts]

theorem Owned.accepted (accepting : state.acceptor = .accepting) (free : state.table conn = none)
    (acceptor : next.acceptor = .reaping conn state.arrivals 0)
    (arrivals : next.arrivals = state.arrivals + 1)
    (table : ∀ fd, next.table fd = if fd = conn then some state.arrivals else state.table fd)
    (connections : ∀ key, next.connections key = state.connections key)
    (workers : next.workers = state.workers) : Owned options next := by
  obtain ⟨holds, owner, numbered, pending, listed, capped, joining, returned⟩ := owned
  constructor
  case holds =>
    intro other c₁ here held
    have still := holds other c₁ ((connections other).symm.trans here) held
    rw [table, if_neg, still]
    intro shared
    rw [shared, free] at still
    cases still
  case owner =>
    intro fd other opened
    rw [table] at opened
    split at opened
    · rename_i this
      rw [acceptor, this, Option.some.inj opened]
      exact .inr ⟨0, rfl⟩
    · rcases owner fd other opened with ⟨c₁, here, owned⟩ | ⟨i, reaping⟩
      · exact .inl ⟨c₁, (connections other).trans here, owned⟩
      · rw [accepting] at reaping
        cases reaping
  all_goals grind [done]

theorem Owned.shed {i : Nat} (reaping : state.acceptor = .reaping conn key i)
    (acceptor : next.acceptor = .accepting) (arrivals : next.arrivals = state.arrivals)
    (table : ∀ fd, next.table fd = if fd = conn then none else state.table fd)
    (connections : ∀ key, next.connections key = state.connections key)
    (workers : next.workers = state.workers) : Owned options next := by
  obtain ⟨holds, owner, numbered, pending, listed, capped, joining, returned⟩ := owned
  obtain ⟨absent, -, shedding⟩ := pending conn key i reaping
  constructor
  case holds =>
    intro other c₁ here held
    rw [connections] at here
    have still := holds other c₁ here held
    rw [table, if_neg, still]
    -- the descriptor is open for a connection that nobody serves
    intro shared
    rw [shared, shedding] at still
    rw [← Option.some.inj still, absent] at here
    cases here
  case owner =>
    intro fd other opened
    rw [table] at opened
    split at opened
    · cases opened
    · rename_i differ
      rcases owner fd other opened with ⟨c₁, here, owned⟩ | ⟨j, same⟩
      · exact .inl ⟨c₁, (connections other).trans here, owned⟩
      · rw [reaping] at same
        cases same
        exact absurd rfl differ
  all_goals grind [done]

theorem Owned.spawned {i : Nat} (reaping : state.acceptor = .reaping conn key i)
    (room : atCapacity state.workers options.maxActiveConnections = false)
    (acceptor : next.acceptor = .accepting ∨ next.acceptor = .joining next.workers)
    (arrivals : next.arrivals = state.arrivals) (table : ∀ fd, next.table fd = state.table fd)
    (connections : Puts state next key { fd := conn })
    (workers : next.workers = state.workers ++ [key]) : Owned options next := by
  obtain ⟨holds, owner, numbered, pending, listed, capped, joining, returned⟩ := owned
  obtain ⟨absent, -, opened⟩ := pending conn key i reaping
  constructor
  case holds =>
    intro other c₁ here held
    rw [table]
    rw [connections other] at here
    split at here
    · rename_i this
      cases here
      rw [this]
      exact opened
    · exact holds other c₁ here held
  case owner =>
    intro fd other entry
    rw [table] at entry
    rcases owner fd other entry with ⟨c₁, here, owned⟩ | ⟨j, same⟩
    · have differ : other ≠ key := by
        rintro rfl
        cases here.symm.trans absent
      exact .inl ⟨c₁, (connections other).trans ((if_neg differ).trans here), owned⟩
    · rw [reaping] at same
      cases same
      exact .inl ⟨_, (connections key).trans (if_pos rfl), rfl, rfl⟩
  case capped =>
    intro bounded
    have short : state.workers.length < options.maxActiveConnections.toNat := by
      simpa [atCapacity, bounded] using room
    rw [workers, length_append]
    exact short
  all_goals grind [done, Puts]

theorem Owned.reaped {i worker : Nat} (reaping : state.acceptor = .reaping conn key i)
    (here : state.workers[i]? = some worker) (flagged : done state worker = true) :
    Owned options { state with workers := state.workers.eraseIdx i } := by
  have fewer : (state.workers.eraseIdx i).length ≤ state.workers.length :=
    length_eraseIdx_le _ _
  have listed : ∀ other ∈ state.workers, done state other = false →
      other ∈ state.workers.eraseIdx i := by
    intro other member busy
    obtain ⟨j, at_⟩ := mem_iff_getElem?.mp member
    exact mem_eraseIdx_iff_getElem?.mpr ⟨j, by grind, at_⟩
  exact { owned with
    listed := fun other present busy => listed other (owned.listed other present busy) busy
    capped := fun bounded => Nat.le_trans fewer (owned.capped bounded)
    joining := fun left now => by cases reaping.symm.trans now }

theorem Owned.admitted {i : Nat} (reaping : state.acceptor = .reaping conn key i) :
    Owned options (shedOrSpawn options state conn key) := by
  unfold shedOrSpawn
  split
  · exact owned.shed reaping rfl rfl (fun _ => update_apply _ _ _ _) (fun _ => rfl) rfl
  · rename_i room
    refine owned.spawned reaping (Bool.eq_false_of_not_eq_true room) ?_ rfl (fun _ => rfl)
      (puts_update rfl) rfl
    dsimp only
    split
    · exact .inr rfl
    · exact .inl rfl

theorem Owned.served (between : ∀ conn key i, state.acceptor ≠ .reaping conn key i) {fd : Int32}
    (opened : state.table fd = some key) :
    ∃ c, state.connections key = some c ∧ c.fd = fd ∧ c.phase.holdsFd = true :=
  (owned.owner fd key opened).resolve_right (fun ⟨i, reaping⟩ => between fd key i reaping)

theorem Owned.joins (between : ∀ conn key i, state.acceptor ≠ .reaping conn key i) {left : List Nat}
    (joined : ∀ key ∈ state.workers, key ∉ left → done state key = true) :
    Owned options { state with acceptor := .joining left } :=
  { owned with
    owner := fun _ _ opened => .inl (owned.served between opened)
    pending := fun _ _ _ now => by cases now
    joining := fun _ now => by cases now; exact joined
    returned := fun _ now => by cases now }

theorem Owned.acceptor {answer : AcceptAnswer}
    (taken : acceptorStep options state answer = some next) : Owned options next := by
  unfold acceptorStep at taken
  split at taken
  · rename_i accepting
    unfold acceptRetry at taken
    split at taken
    · split at taken
      · rename_i free
        cases taken
        exact owned.accepted accepting (isNone_iff_eq_none.mp free) rfl rfl
          (fun _ => update_apply _ _ _ _) (fun _ => rfl) rfl
      · cases taken
    · split at taken
      · cases taken
        exact owned
      · cases taken
        exact owned.joins (by simp [accepting]) (fun _ member apart => absurd member apart)
  · rename_i conn key i reaping
    split at taken
    · rename_i worker here
      split at taken
      · cases taken
        exact owned.reaped reaping here ‹_›
      · cases taken
        exact { owned with
          owner := fun fd other opened => (owned.owner fd other opened).imp_right (by
            rintro ⟨j, now⟩
            cases reaping.symm.trans now
            exact ⟨i + 1, rfl⟩)
          pending := fun _ _ _ now => by cases now; exact owned.pending conn key i reaping
          joining := fun _ now => by cases now
          returned := fun _ now => by cases now }
    · cases taken
      exact owned.admitted reaping
  · rename_i worker left joining
    split at taken
    · rename_i exited
      cases taken
      refine owned.joins (by simp [joining]) (fun key member apart => ?_)
      by_cases this : key = worker
      · rw [this]
        exact exited
      · exact owned.joining _ joining key member (by simp [this, apart])
    · cases taken
  · rename_i joining
    cases taken
    have exited : ∀ key, state.connections key ≠ none → done state key = true := by
      intro key present
      by_contra busy
      rw [Bool.not_eq_true] at busy
      rw [owned.joining [] joining key (owned.listed key present busy) not_mem_nil] at busy
      cases busy
    exact { owned with
      owner := fun _ _ opened => .inl (owned.served (by simp [joining]) opened)
      pending := fun _ _ _ now => by cases now
      listed := fun key present busy => by cases (exited key present).symm.trans busy
      capped := fun _ => Nat.zero_le _
      joining := fun _ now => by cases now
      returned := fun _ now => by cases now; exact ⟨exited, by simp⟩ }
  · cases taken

end

theorem owned_reachable {engine : MatchingEngine} (reached : Reachable config options engine state) :
    Owned options state := by
  induction reached with
  | start =>
    constructor
    case capped => exact fun _ => Nat.zero_le _
    all_goals simp
  | step _ turn taken ih =>
    cases turn with
    | acceptor answer => exact ih.acceptor taken
    | worker key read send =>
      obtain ⟨c, found, taken⟩ := bind_eq_some_iff.mp taken
      obtain ⟨c', own⟩ := workerStep_own taken
      exact ih.own found own

end Descriptors

section OnBytesLoop

variable (config : RiskConfig) (limit : Nat) (inbuf : List UInt8)

/-- The bytes that the loop of `on_bytes` may still go through. -/
def ahead (intake : Intake) : Nat :=
  if intake.status = .ok ∧ intake.ctx.loggedOut = false ∧
      Protocol.headerSize ≤ inbuf.length - intake.consumed then inbuf.length - intake.consumed
  else 0

theorem onBytesStep_falls (intake next : Intake)
    (taken : Session.onBytesStep config limit inbuf intake = some next) :
    ahead inbuf next < ahead inbuf intake := by
  have positive : 0 < Protocol.headerSize := by decide
  unfold Session.onBytesStep at taken
  split at taken
  · cases taken
  · rename_i going
    rw [not_or, not_not, Bool.not_eq_true] at going
    dsimp only at taken
    split at taken
    · cases taken
    · rename_i whole
      rw [length_drop] at whole
      have before : ahead inbuf intake = inbuf.length - intake.consumed :=
        if_pos ⟨going.1, going.2, by omega⟩
      rw [before]
      split at taken
      · cases taken
        simp only [ahead]
        simp
        omega
      · split at taken
        · cases taken
        · split at taken
          · rename_i failed
            cases taken
            simp only [ahead, failed]
            simp
            omega
          · cases taken
            unfold ahead
            dsimp only
            split
            · omega
            · omega

/-- The loop, started on an engine, ends by itself. -/
def served (engine : MatchingEngine) : Intake :=
  WhileLoop.run (Session.onBytesStep config limit inbuf) (inbuf.length + 1)
    ⟨⟨engine, false, []⟩, 0, .ok⟩

theorem served_ends (engine : MatchingEngine) :
    Session.onBytesStep config limit inbuf (served config limit inbuf engine) = none := by
  refine WhileLoop.run_ends (ahead inbuf) (onBytesStep_falls config limit inbuf) ?_
  unfold ahead
  split
  · show inbuf.length - 0 < inbuf.length + 1
    omega
  · omega

end OnBytesLoop

section Calls

variable (config : RiskConfig) (options : TcpServerOptions) (start : MatchingEngine)

/-- The calls of `on_bytes` one after the other, on sessions in front of one gateway. -/
def sequential (calls : List (Nat × List UInt8)) : SharedGateway Nat × List (List UInt8) :=
  Machine.run (SharedGateway.serve config (responseLimit options)) (SharedGateway.connect start) calls

/-- How a connection stands to the calls made so far. The call that is being served is not one of
them yet: what is left of it leads where it would have led on the engine before it. -/
def Follows (calls : List (Nat × List UInt8)) (engine : MatchingEngine) (key : Nat)
    (c : Connection) : Prop :=
  let run := sequential config options start calls
  let stream := streamOf key calls
  let answers := sentOn key calls run.2
  c.session = run.1.sessions key ∧
    match c.phase with
    | .reading => c.session.loggedOut = false ∧ c.received = stream ∧ c.sent = answers
    | .waiting bytes =>
      c.session.loggedOut = false ∧ c.received = stream ++ bytes ∧ c.sent = answers
    | .serving inbuf intake =>
      c.session.loggedOut = false ∧ c.sent = answers ∧
        (∃ bytes, inbuf = c.session.inbuf ++ bytes ∧ c.received = stream ++ bytes) ∧
        ∃ bound, WhileLoop.run (Session.onBytesStep config (responseLimit options) inbuf) bound
          { intake with ctx.engine := engine } =
            served config (responseLimit options) inbuf run.1.engine
    | .writing rest _ => c.received = stream ∧ c.sent ++ rest = answers
    | _ => c.received = stream ∧ c.sent <+: answers

structure Linear (calls : List (Nat × List UInt8)) (state : State) : Prop where
  follows : ∀ key c, state.connections key = some c →
    Follows config options start calls state.engine key c
  fresh : ∀ key, state.connections key = none →
    (sequential config options start calls).1.sessions key = Session.new ∧
      streamOf key calls = [] ∧ sentOn key calls (sequential config options start calls).2 = []
  idle : state.mutex = none → state.engine = (sequential config options start calls).1.engine
  held : ∀ key c, state.connections key = some c →
    (c.phase.serves = true ↔ state.mutex = some key)
  holder : ∀ key, state.mutex = some key → state.connections key ≠ none

variable {config options start} {calls : List (Nat × List UInt8)} {state next : State} {key : Nat}
  {c c' : Connection} {engine : MatchingEngine}

theorem sequential_snoc (calls : List (Nat × List UInt8)) (key : Nat) (bytes : List UInt8) :
    let run := sequential config options start calls
    let reply := (run.1.sessions key).onBytes config run.1.engine bytes [] (responseLimit options)
    sequential config options start (calls ++ [(key, bytes)]) =
      (⟨reply.engine, Function.update run.1.sessions key reply.session⟩, run.2 ++ [reply.out]) := by
  intro run reply
  rw [sequential, Machine.run_append]
  rfl

theorem sentOn_snoc (calls : List (Nat × List UInt8)) (call : Nat × List UInt8) (other : Nat)
    (out : List UInt8) :
    sentOn other (calls ++ [call]) ((sequential config options start calls).2 ++ [out]) =
      sentOn other calls (sequential config options start calls).2 ++
        if call.1 = other then out else [] := by
  have lengths : (sequential config options start calls).2.length = calls.length :=
    Machine.run_length _ _
  rw [sentOn_append other lengths,
    sentOn_alike (show ∀ input ∈ [call], input.1 = call.1 by simp) rfl]
  simp

/-- Outside the mutex the engine does not matter. -/
theorem Follows.engine_free (follows : Follows config options start calls engine key c)
    (outside : c.phase.serves = false) (engine' : MatchingEngine) :
    Follows config options start calls engine' key c := by
  unfold Follows at follows ⊢
  cases phase : c.phase with
  | serving inbuf intake =>
    rw [phase] at outside
    cases outside
  | _ =>
    rw [phase] at follows
    exact follows

/-- A call of another connection does not matter either. -/
theorem Follows.snoc (follows : Follows config options start calls engine key c)
    (outside : c.phase.serves = false) {other : Nat} (differ : key ≠ other) (bytes : List UInt8) :
    Follows config options start (calls ++ [(other, bytes)]) engine key c := by
  unfold Follows at follows ⊢
  rw [sequential_snoc]
  simp only [streamOf_snoc, sentOn_snoc, if_neg differ.symm, append_nil,
    update_of_ne differ]
  cases phase : c.phase with
  | serving inbuf intake =>
    rw [phase] at outside
    cases outside
  | _ =>
    rw [phase] at follows
    exact follows

theorem IoStep.serves (moved : IoStep c c') :
    c.phase.serves = false ∧ c'.phase.serves = false := by
  have outside : ∀ {phase : Phase}, phase.inCall = true → phase.serves = false := by
    intro phase calling
    cases phase <;> first | rfl | cases calling
  cases moved with
  | retried calling => exact ⟨outside calling, outside calling⟩
  | ended calling => exact ⟨outside calling, rfl⟩
  | received bytes reading => exact ⟨by rw [reading]; rfl, rfl⟩
  | sent n rest status writing => exact ⟨by rw [writing]; rfl, writeAll_serves _ _ _⟩
  | flagged flagging => exact ⟨by rw [flagging]; rfl, rfl⟩

theorem IoStep.follows (moved : IoStep c c')
    (follows : Follows config options start calls engine key c) :
    Follows config options start calls engine key c' := by
  obtain ⟨session, rest⟩ := follows
  refine ⟨?_, ?_⟩
  · cases moved <;> exact session
  · cases moved with
    | retried calling => exact rest
    | ended calling =>
      cases phase : c.phase with
      | reading =>
        rw [phase] at rest
        exact ⟨rest.2.1, rest.2.2 ▸ prefix_refl _⟩
      | writing left status =>
        rw [phase] at rest
        exact ⟨rest.1, rest.2 ▸ prefix_append _ _⟩
      | _ =>
        rw [phase] at calling
        cases calling
    | received bytes reading =>
      rw [reading] at rest
      exact ⟨rest.1, congrArg (· ++ bytes) rest.2.1, rest.2.2⟩
    | sent n left status writing =>
      rw [writing] at rest
      have whole : c.sent ++ left.take n ++ left.drop n =
          sentOn key calls (sequential config options start calls).2 := by
        rw [append_assoc, take_append_drop]
        exact rest.2
      dsimp only
      rcases writeAll_phase c.session (left.drop n) status with
        ⟨phase, -⟩ | ⟨sent, phase | ⟨phase, going⟩⟩
      · rw [phase]
        exact ⟨rest.1, whole⟩
      · rw [phase]
        exact ⟨rest.1, whole ▸ prefix_append _ _⟩
      · rw [phase]
        rw [sent, append_nil] at whole
        exact ⟨going, rest.1, whole⟩
    | flagged flagging =>
      rw [flagging] at rest
      exact rest

/-- One connection changes; what is asked of the others is asked of them as they were. -/
theorem Linear.update (connections : Puts state next key c')
    (mine : Follows config options start calls next.engine key c' ∧
      (c'.phase.serves = true ↔ next.mutex = some key))
    (others : ∀ other c₁, other ≠ key → state.connections other = some c₁ →
      Follows config options start calls next.engine other c₁ ∧
        (c₁.phase.serves = true ↔ next.mutex = some other))
    (absent : ∀ other, other ≠ key → state.connections other = none →
      next.mutex ≠ some other ∧
        (sequential config options start calls).1.sessions other = Session.new ∧
        streamOf other calls = [] ∧
        sentOn other calls (sequential config options start calls).2 = [])
    (idle : next.mutex = none →
      next.engine = (sequential config options start calls).1.engine) :
    Linear config options start calls next := by
  have here : next.connections key = some c' := (connections key).trans (if_pos rfl)
  have there : ∀ {other}, other ≠ key → next.connections other = state.connections other :=
    fun differ => (connections _).trans (if_neg differ)
  have each : ∀ other c₁, next.connections other = some c₁ →
      Follows config options start calls next.engine other c₁ ∧
        (c₁.phase.serves = true ↔ next.mutex = some other) := by
    intro other c₁ found
    by_cases same : other = key
    · subst same
      cases here.symm.trans found
      exact mine
    · exact others other c₁ same ((there same).symm.trans found)
  have none : ∀ other, next.connections other = none →
      other ≠ key ∧ state.connections other = none := by
    intro other missing
    have differ : other ≠ key := by
      rintro rfl
      cases here.symm.trans missing
    exact ⟨differ, (there differ).symm.trans missing⟩
  refine ⟨fun other c₁ found => (each other c₁ found).1, ?_, idle,
    fun other c₁ found => (each other c₁ found).2, ?_⟩
  · intro other missing
    exact (absent other (none other missing).1 (none other missing).2).2
  · intro other holding missing
    exact (absent other (none other missing).1 (none other missing).2).1 holding

/-- A step outside the mutex. -/
theorem Linear.put (linear : Linear config options start calls state)
    (free : state.mutex ≠ some key) (outside : c'.phase.serves = false)
    (follows : Follows config options start calls state.engine key c')
    (connections : Puts state next key c')
    (engine : next.engine = state.engine) (mutex : next.mutex = state.mutex) :
    Linear config options start calls next := by
  rw [← engine] at follows
  refine Linear.update connections ⟨follows, ?_⟩ ?_ ?_ ?_ <;> rw [mutex]
  · exact iff_of_false (ne_true_of_eq_false outside) free
  · rw [engine]
    exact fun other c₁ _ here => ⟨linear.follows other c₁ here, linear.held other c₁ here⟩
  · exact fun other _ absent =>
      ⟨fun holding => linear.holder other holding absent, linear.fresh other absent⟩
  · rw [engine]
    exact linear.idle

/-- A step behind the mutex that leaves it locked: nobody else sees the engine before the call is
over. -/
theorem Linear.inside (linear : Linear config options start calls state)
    (outside : ∀ other c₁, other ≠ key → state.connections other = some c₁ →
      c₁.phase.serves = false)
    (serves : c'.phase.serves = true)
    (follows : Follows config options start calls next.engine key c')
    (connections : Puts state next key c') (mutex : next.mutex = some key) :
    Linear config options start calls next := by
  refine Linear.update connections ⟨follows, iff_of_true serves mutex⟩ ?_ ?_ ?_ <;> rw [mutex]
  · intro other c₁ differ here
    have free := outside other c₁ differ here
    refine ⟨(linear.follows other c₁ here).engine_free free _, ?_⟩
    exact iff_of_false (ne_true_of_eq_false free) (fun same => differ (Option.some.inj same).symm)
  · exact fun other differ absent =>
      ⟨fun same => differ (Option.some.inj same).symm, linear.fresh other absent⟩
  · exact nofun

/-- What a whole call leaves and answers is what its loop ends with. -/
theorem onBytes_served {session : Session} (active : session.loggedOut = false)
    (engine : MatchingEngine) (bytes : List UInt8) (limit : Nat) :
    let inbuf := session.inbuf ++ bytes
    let final := served config limit inbuf engine
    session.onBytes config engine bytes [] limit =
      ⟨final.ctx.engine, ⟨inbuf.drop final.consumed, final.ctx.loggedOut⟩, final.ctx.out,
        final.status⟩ := by
  intro inbuf final
  rw [Session.onBytes, active, if_neg Bool.false_ne_true]
  rfl

section

variable (linear : Linear config options start calls state)

include linear

/-- The call is over and counts from here on. -/
theorem Linear.unlocked (found : state.connections key = some c) {inbuf bytes : List UInt8}
    {final : Intake} (active : c.session.loggedOut = false)
    (sent : c.sent = sentOn key calls (sequential config options start calls).2)
    (whole : inbuf = c.session.inbuf ++ bytes)
    (received : c.received = streamOf key calls ++ bytes)
    (ended : final = Qsl.TcpServer.served config (responseLimit options) inbuf
      (sequential config options start calls).1.engine)
    (outside : ∀ other c₁, other ≠ key → state.connections other = some c₁ →
      c₁.phase.serves = false) (connections : Puts state next key { c with
      session := ⟨inbuf.drop final.consumed, final.ctx.loggedOut⟩
      phase := writeAll ⟨inbuf.drop final.consumed, final.ctx.loggedOut⟩ final.ctx.out
        final.status }) (engine : next.engine = final.ctx.engine) (mutex : next.mutex = none) :
    Linear config options start (calls ++ [(key, bytes)]) next := by
  have session := (linear.follows key c found).1
  have run : sequential config options start (calls ++ [(key, bytes)]) =
      (⟨final.ctx.engine, Function.update (sequential config options start calls).1.sessions key
        ⟨inbuf.drop final.consumed, final.ctx.loggedOut⟩⟩,
        (sequential config options start calls).2 ++ [final.ctx.out]) := by
    rw [sequential_snoc, ← session, onBytes_served active, ← whole, ← ended]
  have mine : Follows config options start (calls ++ [(key, bytes)]) next.engine key { c with
      session := ⟨inbuf.drop final.consumed, final.ctx.loggedOut⟩
      phase := writeAll ⟨inbuf.drop final.consumed, final.ctx.loggedOut⟩ final.ctx.out
        final.status } := by
    unfold Follows
    rw [run]
    simp only [streamOf_snoc, sentOn_snoc, if_true, update_self, true_and, received, sent]
    rcases writeAll_phase ⟨inbuf.drop final.consumed, final.ctx.loggedOut⟩ final.ctx.out final.status
      with ⟨phase, -⟩ | ⟨silent, phase | ⟨phase, going⟩⟩
    · simp [phase]
    · simp [phase]
    · simp only [phase]
      simp [silent, show final.ctx.loggedOut = false from going]
  refine Linear.update connections ?_ ?_ ?_ ?_
  · rw [mutex]
    exact ⟨mine, by simp [writeAll_serves]⟩
  · intro other c₁ differ here
    have free := outside other c₁ differ here
    refine ⟨((linear.follows other c₁ here).engine_free free _).snoc free differ bytes, ?_⟩
    rw [mutex, free]
    simp
  · intro other differ absent
    rw [mutex, run]
    simp only [streamOf_snoc, sentOn_snoc, if_neg (Ne.symm differ), append_nil,
      update_of_ne differ]
    exact ⟨(some_ne_none other).symm, linear.fresh other absent⟩
  · intro _
    rw [engine, run]

theorem Linear.served (found : state.connections key = some c) {inbuf : List UInt8}
    {intake : Intake} (serving : c.phase = .serving inbuf intake) :
    ∃ calls, Linear config options start calls
      (serveStep config options state key c inbuf intake) := by
  obtain ⟨session, rest⟩ := linear.follows key c found
  rw [serving] at rest
  obtain ⟨active, sent, ⟨bytes, whole, received⟩, bound, leads⟩ := rest
  have mine : state.mutex = some key := (linear.held key c found).mp (by rw [serving]; rfl)
  have outside : ∀ other c₁, other ≠ key → state.connections other = some c₁ →
      c₁.phase.serves = false := by
    intro other c₁ differ here
    refine Bool.eq_false_of_not_eq_true (fun serves => differ ?_)
    exact Option.some.inj (((linear.held other c₁ here).mp serves).symm.trans mine)
  rcases @serveStep_cases config options state key c inbuf intake with
    ⟨after, taken, same⟩ | ⟨stopped, same⟩
  · refine ⟨calls, ?_⟩
    have follows : Follows config options start calls after.ctx.engine key
        { c with phase := .serving inbuf after } := by
      refine ⟨session, active, sent, ⟨bytes, whole, received⟩, ?_⟩
      cases bound with
      | zero =>
        -- the loop would be at its end with a step to go
        have stuck := served_ends config (responseLimit options) inbuf
          (sequential config options start calls).1.engine
        rw [← leads] at stuck
        cases stuck.symm.trans taken
      | succ bound =>
        rw [WhileLoop.run_step _ _ _ _ taken] at leads
        exact ⟨bound, leads⟩
    rw [same]
    exact linear.inside outside rfl follows (puts_update rfl) mine
  · refine ⟨calls ++ [(key, bytes)], ?_⟩
    rw [WhileLoop.run_stop _ _ _ stopped] at leads
    refine linear.unlocked found active sent whole received leads outside ?_ ?_ ?_
    · rw [same]
      exact puts_update rfl
    · rw [same]
      rfl
    · rw [same]

/-- Accepting, reaping and joining concern no call; a new connection starts with none. -/
theorem Linear.acceptor (owned : Owned options state) {answer : AcceptAnswer}
    (taken : acceptorStep options state answer = some next) :
    Linear config options start calls next := by
  have same : ∀ {next : State}, next.connections = state.connections → next.engine = state.engine →
      next.mutex = state.mutex → Linear config options start calls next := by
    intro next connections engine mutex
    obtain ⟨follows, fresh, idle, held, holder⟩ := linear
    constructor <;> simpa only [connections, engine, mutex]
  unfold acceptorStep at taken
  split at taken
  · unfold acceptRetry at taken
    split at taken
    · split at taken
      · cases taken
        exact same rfl rfl rfl
      · cases taken
    · split at taken <;> cases taken
      · exact linear
      · exact same rfl rfl rfl
  · rename_i conn key i reaping
    split at taken
    · split at taken <;> cases taken
      · exact same rfl rfl rfl
      · exact same rfl rfl rfl
    · cases taken
      unfold shedOrSpawn
      split
      · exact same rfl rfl rfl
      · obtain ⟨absent, -, -⟩ := owned.pending conn key i reaping
        obtain ⟨session, stream, answers⟩ := linear.fresh key absent
        have follows : Follows config options start calls state.engine key { fd := conn } :=
          ⟨session.symm, rfl, stream.symm, answers.symm⟩
        exact linear.put (fun holding => linear.holder key holding absent) rfl follows
          (puts_update rfl) rfl rfl
  · split at taken <;> cases taken
    exact same rfl rfl rfl
  · cases taken
    exact same rfl rfl rfl
  · cases taken

end

theorem linear_reachable (reached : Reachable config options start state) :
    ∃ calls, Linear config options start calls state := by
  induction reached with
  | start =>
    exact ⟨[], fun _ _ here => (by cases here), fun _ _ => ⟨rfl, rfl, rfl⟩, fun _ => rfl,
      fun _ _ here => (by cases here), fun _ now => (by cases now)⟩
  | step before turn taken ih =>
    obtain ⟨calls, linear⟩ := ih
    cases turn with
    | acceptor answer => exact ⟨calls, linear.acceptor (owned_reachable before) taken⟩
    | worker key read send =>
      obtain ⟨c, found, taken⟩ := bind_eq_some_iff.mp taken
      have follows := linear.follows key c found
      have free : c.phase.serves = false → _ ≠ some key := fun outside =>
        mt (linear.held key c found).mpr (ne_true_of_eq_false outside)
      rcases workerStep_cases taken with ⟨c', moved, rfl⟩ | ⟨closing, rfl⟩ |
        ⟨bytes, waiting, unlocked, rfl⟩ | ⟨inbuf, intake, serving, rfl⟩
      · exact ⟨calls, linear.put (free moved.serves.1) moved.serves.2 (moved.follows follows)
          (puts_update rfl) rfl rfl⟩
      · refine ⟨calls, linear.put (free (by rw [closing]; rfl)) rfl ?_ (puts_update rfl) rfl rfl⟩
        unfold Follows at follows
        rw [closing] at follows
        exact follows
      · refine ⟨calls, linear.inside ?_ rfl ?_ (puts_update rfl) rfl⟩
        · intro other c₁ _ here
          refine Bool.eq_false_of_not_eq_true (fun serves => ?_)
          cases unlocked.symm.trans ((linear.held other c₁ here).mp serves)
        · obtain ⟨session, rest⟩ := follows
          rw [waiting] at rest
          refine ⟨session, rest.1, rest.2.2, ⟨bytes, rfl, rest.2.1⟩,
            (c.session.inbuf ++ bytes).length + 1, ?_⟩
          rw [served, ← linear.idle unlocked]
          rfl
      · exact linear.served found serving

/-- However the threads are scheduled and whatever the kernel answers, the gateway sees whole calls
of `on_bytes` one after the other: with the mutex free the engine is where they lead, a worker is
alone behind the mutex, and each connection is sent a prefix of the answers to its own bytes, all of
them once it reads again. -/
theorem threads_linearise (reached : Reachable config options start state) :
    ∃ calls, let run := sequential config options start calls
      (state.mutex = none → state.engine = run.1.engine) ∧
        (∀ key c, state.connections key = some c →
          streamOf key calls <+: c.received ∧ c.sent <+: sentOn key calls run.2 ∧
            (c.phase = .reading →
              c.received = streamOf key calls ∧ c.sent = sentOn key calls run.2)) ∧
        (∀ key, state.connections key = none → streamOf key calls = []) ∧
        ∀ key c key' c', state.connections key = some c → state.connections key' = some c' →
          c.phase.serves = true → c'.phase.serves = true → key = key' := by
  obtain ⟨calls, linear⟩ := linear_reachable reached
  refine ⟨calls, linear.idle, ?_, fun key absent => (linear.fresh key absent).2.1, ?_⟩
  · intro key c found
    obtain ⟨-, rest⟩ := linear.follows key c found
    cases phase : c.phase with
    | reading =>
      rw [phase] at rest
      exact ⟨rest.2.1 ▸ prefix_refl _, rest.2.2 ▸ prefix_refl _, fun _ => rest.2⟩
    | waiting bytes =>
      rw [phase] at rest
      exact ⟨rest.2.1 ▸ prefix_append _ _, rest.2.2 ▸ prefix_refl _,
        fun now => by cases now⟩
    | serving inbuf intake =>
      rw [phase] at rest
      obtain ⟨-, sent, ⟨bytes, -, received⟩, -⟩ := rest
      exact ⟨received ▸ prefix_append _ _, sent ▸ prefix_refl _, fun now => by cases now⟩
    | writing left status =>
      rw [phase] at rest
      exact ⟨rest.1 ▸ prefix_refl _, rest.2 ▸ prefix_append _ _, fun now => by cases now⟩
    | closing | flagging | exited =>
      rw [phase] at rest
      exact ⟨rest.1 ▸ prefix_refl _, rest.2, fun now => by cases now⟩
  · intro key c key' c' found found' serves serves'
    have mine := (linear.held key c found).mp serves
    rw [(linear.held key' c' found').mp serves'] at mine
    exact (Option.some.inj mine).symm

/-- Two connections read a heartbeat each; the first is answered while the second waits. -/
theorem threads_linearise_two :
    let beat := framed .heartbeat heartbeatBodySize (BigEndian.store 8 7)
    let reply := framed .heartbeatAck heartbeatBodySize (BigEndian.store 8 7)
    ∃ state, Reachable ⟨8, 1000⟩ {} (.new .baseline) state ∧
      (∃ c, state.connections 1 = some c ∧ c.received = beat ∧ c.sent = []) ∧
      ∃ calls, let run := sequential ⟨8, 1000⟩ {} (.new .baseline) calls
        state.engine = run.1.engine ∧ streamOf 0 calls = beat ∧ sentOn 0 calls run.2 = reply ∧
          streamOf 1 calls <+: beat := by
  intro beat reply
  have first : Reachable ⟨8, 1000⟩ {} (.new .baseline) _ :=
    (Reachable.start.step (.acceptor (.connection 5)) rfl).step (.acceptor (.connection 6)) rfl
  have accepted := ((first.step (.acceptor (.connection 6)) rfl).step
    (.acceptor (.connection 7)) rfl).step (.acceptor (.connection 7)) rfl
  have read := (accepted.step (.worker 0 (.ok beat) (.ok 0)) rfl).step
    (.worker 1 (.ok beat) (.ok 0)) rfl
  -- the lock, the one frame, the end of the loop
  have served := ((read.step (.worker 0 (.ok []) (.ok 0)) rfl).step
    (.worker 0 (.ok []) (.ok 0)) rfl).step (.worker 0 (.ok []) (.ok 0)) rfl
  obtain ⟨state, reached, answering, waiting, free⟩ : ∃ state,
      Reachable ⟨8, 1000⟩ {} (.new .baseline) state ∧
      state.connections 0 = some ⟨5, Session.new, .reading, beat, reply⟩ ∧
      state.connections 1 = some ⟨6, Session.new, .waiting beat, beat, []⟩ ∧ state.mutex = none :=
    ⟨_, served.step (.worker 0 (.ok []) (.ok 24)) rfl, rfl, rfl, rfl⟩
  obtain ⟨calls, engine, answered, -⟩ := threads_linearise reached
  obtain ⟨received, sent⟩ := (answered 0 _ answering).2.2 rfl
  exact ⟨state, reached, ⟨_, waiting, rfl, rfl⟩, calls, engine free, received.symm, sent.symm,
    (answered 1 _ waiting).1⟩

/-- Connections that are served at once stay below the cap; a descriptor that a worker still holds is
open for its own connection, and no other is open but the one just accepted; and when the accept loop
returns, every worker has exited and everything is closed. -/
theorem connections_guarded (reached : Reachable config options start state) :
    (options.maxActiveConnections ≠ 0 → ∀ keys : List Nat, keys.Nodup →
        (∀ key ∈ keys, ∃ c, state.connections key = some c ∧ c.phase.flagged = false) →
          keys.length ≤ options.maxActiveConnections.toNat) ∧
      (∀ key c, state.connections key = some c → c.phase.holdsFd = true →
        state.table c.fd = some key) ∧
      (∀ fd key, state.table fd = some key →
        (∃ c, state.connections key = some c ∧ c.fd = fd ∧ c.phase.holdsFd = true) ∨
          ∃ i, state.acceptor = .reaping fd key i) ∧
      ∀ ok, state.acceptor = .returned ok →
        (∀ key c, state.connections key = some c → c.phase.flagged = true) ∧
          (∀ fd, state.table fd = none) ∧
          (ok = true ↔ options.maxAccepts = 0 ∨ state.accepted = options.maxAccepts.toNat) := by
  have owned := owned_reachable reached
  have flag : ∀ {key c}, state.connections key = some c → done state key = c.phase.flagged := by
    intro key c found
    rw [done, found, any_some]
  refine ⟨?_, owned.holds, owned.owner, ?_⟩
  · intro capped keys distinct busy
    have listed : keys ⊆ state.workers := by
      intro key member
      obtain ⟨c, found, going⟩ := busy key member
      exact owned.listed key (found ▸ some_ne_none c) ((flag found).trans going)
    exact Nat.le_trans (distinct.subperm listed).length_le (owned.capped capped)
  · intro ok returned
    obtain ⟨all, value⟩ := owned.returned ok returned
    have flagged : ∀ key c, state.connections key = some c → c.phase.flagged = true :=
      fun key c found => (flag found).symm.trans (all key (found ▸ some_ne_none c))
    refine ⟨flagged, ?_, value⟩
    intro fd
    cases entry : state.table fd with
    | none => rfl
    | some key =>
      rcases owned.owner fd key entry with ⟨c, found, -, held⟩ | ⟨i, reaping⟩
      · have exited := flagged key c found
        cases phase : c.phase <;> simp [phase, Phase.holdsFd, Phase.flagged] at held exited
      · rw [returned] at reaping
        cases reaping

/-- With room for one connection the second is shed. -/
theorem connections_guarded_full :
    let options : TcpServerOptions := { maxActiveConnections := 1 }
    ∃ state, Reachable ⟨8, 1000⟩ options (.new .baseline) state ∧ state.workers = [0] ∧
      state.arrivals = 2 ∧ state.table 5 = some 0 := by
  intro options
  have first : Reachable ⟨8, 1000⟩ options (.new .baseline) _ :=
    (Reachable.start.step (.acceptor (.connection 5)) rfl).step (.acceptor (.connection 6)) rfl
  have second := ((first.step (.acceptor (.connection 6)) rfl).step
    (.acceptor (.connection 6)) rfl).step (.acceptor (.connection 6)) rfl
  exact ⟨_, second, rfl, rfl, (connections_guarded second).2.1 0 _ rfl rfl⟩

end Calls

end Qsl.TcpServer
