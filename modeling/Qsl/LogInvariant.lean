import Qsl.OrderedMap
import Mathlib.Algebra.Order.Ring.Int
import Mathlib.Data.List.Induction

/- The log verifier: checks recomputed from the records of an exported event log. -/
namespace Qsl.LogVerifier

open List

inductive Kind where
  | accept
  | cancel
  | modify
  deriving DecidableEq, Repr

inductive Event where
  | lifecycle (kind : Kind) (seq symbol orderId : Int)
  | trade (seq symbol taker maker price qty : Int)
  deriving DecidableEq, Repr

/-- A fixture line: a rejected attempt, which has no number, or an emitted event. -/
inductive Record where
  | rej (id : Int)
  | ev (event : Event)
  deriving DecidableEq, Repr

def Event.seq : Event → Int
  | .lifecycle _ seq _ _ => seq
  | .trade seq _ _ _ _ _ => seq

def Event.isTrade : Event → Bool
  | .lifecycle .. => false
  | .trade .. => true

def Record.event? : Record → Option Event
  | .ev event => some event
  | .rej _ => none

structure Fixture where
  records : List Record
  lastSeq : Int
  trades : Int
  deriving DecidableEq, Repr

def eventsOf (fx : Fixture) : List Event := fx.records.filterMap Record.event?

/-- Name, verdict and detail; the detail is empty when the verdict is good. -/
abbrev Result := String × Bool × String

/-- The walk of `monotonic_seq`. -/
def rising : Int → List Event → Bool × String
  | _, [] => (true, "")
  | prev, e :: tl =>
    let s := e.seq
    if s > prev then rising s tl else (false, s!"seq {s} not > previous {prev}")

def monotonicSeq (fx : Fixture) : Result :=
  let (ok, detail) := rising 0 (eventsOf fx)
  ("sequence strictly increasing", ok, detail)

def Event.nonPositive : Event → Bool
  | .trade _ _ _ _ _ q => q ≤ 0
  | _ => false

def positiveQty (fx : Fixture) : Result :=
  match (eventsOf fx).find? Event.nonPositive with
  | some (.trade s _ _ _ _ q) => ("positive trade quantity", false, s!"seq {s} has qty {q}")
  | _ => ("positive trade quantity", true, "")

inductive Life where
  | unknown
  | active
  | canceled
  | rejected
  deriving DecidableEq, Repr

/-- The table of the lifetime pass and its two notes. -/
structure Pass where
  st : OrderedMap Int Life (· < ·)
  cv : String
  rv : String

namespace Pass

def new : Pass := ⟨.empty, "", ""⟩

def state (pass : Pass) (id : Int) : Life := (pass.st.find? id).getD .unknown

def replace (pass : Pass) (id : Int) (life : Life) : Pass :=
  { pass with st := pass.st.insert id life }

end Pass

/-- The first message stays. -/
def note (r msg : String) : String := if r = "" then msg else r

namespace Pass

def onActiveUse (pass : Pass) (id s : Int) : Pass :=
  match pass.state id with
  | .canceled => { pass with cv := note pass.cv s!"canceled order {id} acted at seq {s}" }
  | .rejected => { pass with rv := note pass.rv s!"rejected order {id} rests/trades at seq {s}" }
  | _ => pass

def step (pass : Pass) : Record → Pass
  | .rej id => if pass.state id ≠ .active then pass.replace id .rejected else pass
  | .ev (.lifecycle .accept _ _ id) => pass.replace id .active
  | .ev (.lifecycle .modify s _ id) => (pass.onActiveUse id s).replace id .active
  | .ev (.lifecycle .cancel s _ id) => (pass.onActiveUse id s).replace id .canceled
  | .ev (.trade s _ taker maker _ _) => (pass.onActiveUse taker s).onActiveUse maker s

end Pass

def lifetimeChecks (fx : Fixture) : Result × Result :=
  let pass := fx.records.foldl Pass.step .new
  (("canceled order cannot later trade", pass.cv = "", pass.cv),
    ("rejected order never rests or trades", pass.rv = "", pass.rv))

def summaryConsistent (fx : Fixture) : Result :=
  let events := eventsOf fx
  let maxSeq := events.foldl (fun (m : Int) e => max m e.seq) 0
  let tradeCount := events.foldl (fun (n : Int) e => if e.isTrade then n + 1 else n) 0
  if maxSeq ≠ fx.lastSeq then
    ("summary matches event log", false, s!"max seq {maxSeq} <> last_seq {fx.lastSeq}")
  else if tradeCount ≠ fx.trades then
    ("summary matches event log", false, s!"trade count {tradeCount} <> reported {fx.trades}")
  else ("summary matches event log", true, "")

def run (fx : Fixture) : List Result :=
  let (canceledChk, rejectedChk) := lifetimeChecks fx
  [monotonicSeq fx, positiveQty fx, canceledChk, rejectedChk, summaryConsistent fx]

def allOk (checks : List Result) : Bool := checks.all (fun (_, ok, _) => ok)

/-- The event acts on the id: it needs the id to be active. -/
def Event.acts (id : Int) : Event → Prop
  | .lifecycle .accept _ _ _ => False
  | .lifecycle .modify _ _ order => order = id
  | .lifecycle .cancel _ _ order => order = id
  | .trade _ _ taker maker _ _ => taker = id ∨ maker = id

def Event.accepts (id : Int) : Event → Prop
  | .lifecycle .accept _ _ order => order = id
  | _ => False

/-- The id's standing by its last acceptance or cancel. -/
def Event.lapses (id : Int) (lapsed : Bool) : Event → Bool
  | .lifecycle .accept _ _ order => if order = id then false else lapsed
  | .lifecycle .cancel _ _ order => if order = id then true else lapsed
  | _ => lapsed

/-- The id was canceled and not accepted again since. -/
def lapsed (id : Int) (events : List Event) : Bool := events.foldl (Event.lapses id) false

/-- Whatever acts on an id finds something of the events before. -/
def Acting (found : List Event → Int → Prop) (events : List Event) : Prop :=
  ∀ before event after, events = before ++ event :: after →
    ∀ id, event.acts id → found before id

/-- No event acts on an id that is canceled, on whatever symbol, and not accepted again. -/
def Reinstated (events : List Event) : Prop :=
  Acting (fun before id => lapsed id before = false) events

/-- The id was accepted in the log. -/
def accepted (id : Int) (events : List Event) : Prop := ∃ event ∈ events, event.accepts id

/-- Only accepted ids are acted on. -/
def Introduced (events : List Event) : Prop :=
  Acting (fun before id => accepted id before) events

theorem positiveQty_ok {fx : Fixture} :
    (positiveQty fx).2.1 = true ↔ ∀ event ∈ eventsOf fx, event.nonPositive = false := by
  rw [positiveQty]
  cases found : (eventsOf fx).find? Event.nonPositive with
  | none =>
    rw [List.find?_eq_none] at found
    refine ⟨fun _ event member => ?_, fun _ => rfl⟩
    exact eq_false_of_ne_true (found event member)
  | some event =>
    have flagged := List.find?_some found
    have member := mem_of_find?_eq_some found
    cases event with
    | lifecycle kind seq symbol order => cases flagged
    | trade seq symbol taker maker price qty =>
      refine ⟨fun no => (nomatch no), fun positive => ?_⟩
      rw [positive _ member] at flagged
      cases flagged

theorem summaryConsistent_ok {fx : Fixture} :
    (summaryConsistent fx).2.1 = true ↔
      (eventsOf fx).foldl (fun (m : Int) e => max m e.seq) 0 = fx.lastSeq ∧
        ((eventsOf fx).countP Event.isTrade : Int) = fx.trades := by
  have counted : ∀ (events : List Event) (n : Int),
      events.foldl (fun (n : Int) e => if e.isTrade then n + 1 else n) n =
        n + events.countP Event.isTrade := by
    intro events
    induction events with
    | nil => simp
    | cons event events ih =>
      intro n
      rw [foldl_cons, ih, countP_cons]
      cases event.isTrade with
      | true =>
        simp only [if_true]
        rw [Int.natCast_add, Int.add_right_comm, ← Int.add_assoc]
        rfl
      | false => simp
  simp only [summaryConsistent, counted, zero_add]
  split
  · rename_i differs
    exact ⟨fun no => (nomatch no), fun same => absurd same.1 differs⟩
  · rename_i same
    split
    · rename_i differs
      exact ⟨fun no => (nomatch no), fun same => absurd same.2 differs⟩
    · rename_i equal
      exact ⟨fun _ => ⟨not_not.mp same, not_not.mp equal⟩, fun _ => rfl⟩

/-- The verdict over all five checks. -/
theorem allOk_iff {fx : Fixture} :
    allOk (run fx) = true ↔
      (monotonicSeq fx).2.1 = true ∧ (positiveQty fx).2.1 = true ∧
        ((lifetimeChecks fx).1.2.1 = true ∧ (lifetimeChecks fx).2.2.1 = true) ∧
        (summaryConsistent fx).2.1 = true := by
  simp [allOk, run, and_assoc]

namespace Pass

variable {pass : Pass}

/-- No violation noted. -/
def Quiet (pass : Pass) : Prop := pass.cv = "" ∧ pass.rv = ""

@[simp] theorem replace_quiet (id : Int) (life : Life) :
    (pass.replace id life).Quiet ↔ pass.Quiet := Iff.rfl

@[simp] theorem replace_state (id other : Int) (life : Life) :
    (pass.replace id life).state other = if other = id then life else pass.state other := by
  simp only [replace, state, OrderedMap.find?_insert]
  split <;> rfl

@[simp] theorem onActiveUse_state (id other s : Int) :
    (pass.onActiveUse id s).state other = pass.state other := by
  unfold onActiveUse
  split <;> rfl

end Pass

/-- A life in which the id must not act. -/
def Life.ended (life : Life) : Prop := life = .canceled ∨ life = .rejected

theorem note_ne_empty (r : String) {msg : String} (text : msg ≠ "") : note r msg ≠ "" := by
  unfold note
  split
  · exact text
  · assumption

/-- A text of a violation opens with its fixed words. -/
theorem text_ne_empty {head : String} (words : head ≠ "") (a b c : String) :
    head ++ a ++ b ++ c ≠ "" := by
  intro empty
  simp only [String.append_eq_empty_iff] at empty
  exact words empty.1.1.1

namespace Pass

variable {pass : Pass}

theorem onActiveUse_quiet (id s : Int) :
    (pass.onActiveUse id s).Quiet ↔ pass.Quiet ∧ ¬ (pass.state id).ended := by
  unfold onActiveUse
  cases life : pass.state id with
  | unknown => simp [Life.ended]
  | active => simp [Life.ended]
  | canceled =>
    constructor
    · intro quiet
      exact absurd quiet.1 (note_ne_empty _ (text_ne_empty (by decide) _ _ _))
    · intro allowed
      exact absurd (Or.inl rfl) allowed.2
  | rejected =>
    constructor
    · intro quiet
      exact absurd quiet.2 (note_ne_empty _ (text_ne_empty (by decide) _ _ _))
    · intro allowed
      exact absurd (Or.inr rfl) allowed.2

end Pass

/-- What a record makes of one id's life. -/
def Life.after (id : Int) (life : Life) : Record → Life
  | .rej other => if other = id ∧ life ≠ .active then .rejected else life
  | .ev (.lifecycle .accept _ _ order) => if order = id then .active else life
  | .ev (.lifecycle .modify _ _ order) => if order = id then .active else life
  | .ev (.lifecycle .cancel _ _ order) => if order = id then .canceled else life
  | .ev (.trade ..) => life

/-- The life of one id behind the records. -/
def life (id : Int) (records : List Record) : Life := records.foldl (Life.after id) .unknown

theorem life_snoc (id : Int) (records : List Record) (record : Record) :
    life id (records ++ [record]) = (life id records).after id record := by
  rw [life, foldl_append]
  rfl

theorem lapsed_snoc (id : Int) (events : List Event) (event : Event) :
    lapsed id (events ++ [event]) = event.lapses id (lapsed id events) := by
  rw [lapsed, foldl_append]
  rfl

namespace Pass

variable {pass : Pass}

theorem step_state (record : Record) (id : Int) :
    (pass.step record).state id = (pass.state id).after id record := by
  cases record with
  | rej other =>
    by_cases same : other = id
    · subst same
      simp only [step, Life.after, true_and]
      split
      · rw [replace_state, if_pos rfl]
      · rfl
    · simp only [step, Life.after, same, false_and, if_false]
      split
      · rw [replace_state, if_neg (Ne.symm same)]
      · rfl
  | ev event =>
    cases event with
    | lifecycle kind seq symbol order =>
      cases kind <;> simp [step, Life.after, eq_comm]
    | trade seq symbol taker maker price qty => simp [step, Life.after]

theorem step_quiet (record : Record) :
    (pass.step record).Quiet ↔ pass.Quiet ∧
      ∀ event, record = .ev event → ∀ id, event.acts id → ¬ (pass.state id).ended := by
  cases record with
  | rej other =>
    rw [step]
    split <;> simp
  | ev event =>
    cases event with
    | lifecycle kind seq symbol order =>
      cases kind <;> simp [step, Event.acts, onActiveUse_quiet]
    | trade seq symbol taker maker price qty =>
      simp only [step, onActiveUse_quiet, onActiveUse_state, Record.ev.injEq, forall_eq',
        Event.acts]
      constructor
      · rintro ⟨⟨quiet, takes⟩, makes⟩
        refine ⟨quiet, ?_⟩
        rintro id (rfl | rfl)
        · exact takes
        · exact makes
      · rintro ⟨quiet, allowed⟩
        exact ⟨⟨quiet, allowed taker (Or.inl rfl)⟩, allowed maker (Or.inr rfl)⟩

theorem run_state (records : List Record) (id : Int) :
    (records.foldl step pass).state id = records.foldl (Life.after id) (pass.state id) := by
  induction records generalizing pass with
  | nil => rfl
  | cons record records ih => rw [foldl_cons, ih, step_state, foldl_cons]

/-- The whole pass is quiet when no event acts on an id whose life is over. -/
theorem run_quiet (records : List Record) :
    (records.foldl step new).Quiet ↔
      ∀ before event after, records = before ++ .ev event :: after →
        ∀ id, event.acts id → ¬ (life id before).ended := by
  induction records using List.reverseRecOn with
  | nil =>
    refine ⟨?_, fun _ => ⟨rfl, rfl⟩⟩
    intro _ before event after split
    cases before <;> cases split
  | append_singleton records record ih =>
    rw [foldl_append, foldl_cons, foldl_nil, step_quiet, ih]
    constructor
    · rintro ⟨earlier, last⟩ before event after split id acts
      rcases eq_nil_or_concat after with rfl | ⟨rest, final, rfl⟩
      · obtain ⟨rfl, same⟩ := append_inj' split rfl
        have done := last event (List.cons.inj same).1 id acts
        rw [run_state] at done
        exact done
      · rw [concat_eq_append, ← cons_append, ← append_assoc] at split
        exact earlier before event rest (append_inj' split rfl).1 id acts
    · intro all
      constructor
      · rintro before event after rfl id acts
        exact all before event (after ++ [record]) (by simp) id acts
      · rintro event rfl id acts
        rw [run_state]
        exact all records event [] rfl id acts

end Pass

theorem lifetimeChecks_ok {fx : Fixture} :
    (lifetimeChecks fx).1.2.1 = true ∧ (lifetimeChecks fx).2.2.1 = true ↔
      (fx.records.foldl Pass.step .new).Quiet := by
  simp [lifetimeChecks, Pass.Quiet]

/-- Conditions on the events are conditions on the records. -/
theorem acting_records {found : List Event → Int → Prop} {records : List Record} :
    Acting found (records.filterMap Record.event?) ↔
      ∀ before event after, records = before ++ .ev event :: after →
        ∀ id, event.acts id → found (before.filterMap Record.event?) id := by
  constructor
  · rintro acting before event after rfl id acts
    exact acting _ event (after.filterMap Record.event?) (by simp [Record.event?]) id acts
  · intro all before event after split id acts
    obtain ⟨first, second, rfl, rfl, rest⟩ := filterMap_eq_append_iff.mp split
    obtain ⟨quiet, record, others, rfl, silent, same, rfl⟩ := filterMap_eq_cons_iff.mp rest
    cases record with
    | rej other => cases same
    | ev acted =>
      cases same
      have none : quiet.filterMap Record.event? = [] := filterMap_eq_nil_iff.mpr silent
      have seen := all (first ++ quiet) event others (by simp) id acts
      rw [filterMap_append, none, append_nil] at seen
      exact seen

theorem accepted_snoc {id : Int} {events : List Event} {event : Event} :
    accepted id (events ++ [event]) ↔ accepted id events ∨ event.accepts id := by
  simp [accepted, or_and_right, exists_or]

theorem Life.over_of_idle {life : Life} (known : life ≠ .unknown) (idle : life ≠ .active) :
    life.ended := by
  cases life with
  | unknown => exact absurd rfl known
  | active => exact absurd rfl idle
  | canceled => exact Or.inl rfl
  | rejected => exact Or.inr rfl

/-- An accepted id is known from then on, and its life is over only behind a cancel. -/
theorem life_of_accepted {id : Int} (records : List Record) :
    accepted id (records.filterMap Record.event?) →
      life id records ≠ .unknown ∧
        ((life id records).ended → lapsed id (records.filterMap Record.event?) = true) := by
  induction records using List.reverseRecOn with
  | nil =>
    rintro ⟨event, member, _⟩
    cases member
  | append_singleton records record ih =>
    rw [life_snoc, filterMap_append]
    cases record with
    | rej other =>
      simp only [filterMap_cons, Record.event?, filterMap_nil, append_nil]
      intro before
      obtain ⟨known, behind⟩ := ih before
      simp only [Life.after]
      split
      · rename_i refused
        -- the attempt was refused while the id was not active: its life was over before
        exact ⟨nofun, fun _ => behind (Life.over_of_idle known refused.2)⟩
      · exact ⟨known, behind⟩
    | ev event =>
      simp only [filterMap_cons, Record.event?, filterMap_nil, accepted_snoc,
        lapsed_snoc]
      rcases event with ⟨⟨⟩, seq, symbol, order⟩ | ⟨seq, symbol, taker, maker, price, qty⟩
      · by_cases same : order = id
        · simp [Life.after, Life.ended, same]
        · simpa [Life.after, Event.accepts, Event.lapses, same] using ih
      · by_cases same : order = id
        · simp [Life.after, Event.lapses, same]
        · simpa [Life.after, Event.accepts, Event.lapses, same] using ih
      · by_cases same : order = id
        · simp [Life.after, Life.ended, same]
        · simpa [Life.after, Event.accepts, Event.lapses, same] using ih
      · simpa [Life.after, Event.accepts, Event.lapses] using ih

/-- On a log that acts on accepted ids only, the lifetime checks pass if every acting id was
accepted again after its last cancel. -/
theorem quiet_of_reinstated {records : List Record}
    (introduced : Introduced (records.filterMap Record.event?))
    (reinstated : Reinstated (records.filterMap Record.event?)) :
    (records.foldl Pass.step .new).Quiet := by
  rw [Introduced, acting_records] at introduced
  rw [Reinstated, acting_records] at reinstated
  rw [Pass.run_quiet]
  intro before event after split id acts ending
  have behind := (life_of_accepted before (introduced before event after split id acts)).2 ending
  rw [reinstated before event after split id acts] at behind
  cases behind

end Qsl.LogVerifier
