import Mathlib.Order.WellFounded
import Mathlib.Tactic.Common

/- Greedy reduction of a state that has to keep failing: steps that try a candidate and say whether
they took it, one after another, until a whole pass takes none. -/
namespace GreedyReduction

variable {σ : Type}

/-- The state after a step, and whether the step changed anything. -/
abbrev Reduction (σ : Type) : Type := σ → σ × Bool

/-- Take the candidate, if there is one and it fails too. -/
def attempt (fails : σ → Bool) (candidate : σ → Option σ) : Reduction σ := fun state =>
  match candidate state with
  | none => (state, false)
  | some next => if fails next then (next, true) else (state, false)

/-- One step and then another; both are always taken. -/
def andThen (first second : Reduction σ) : Reduction σ := fun state =>
  let (next, changed) := first state
  let (final, again) := second next
  (final, again || changed)

def sequence (steps : List (Reduction σ)) : Reduction σ :=
  steps.foldr andThen fun state => (state, false)

/-- The state after so many passes. -/
def passes (reduce : Reduction σ) : Nat → σ → σ
  | 0, state => state
  | count + 1, state => passes reduce count (reduce state).1

/-- A step that keeps the failure, says so if it changes anything, and then goes down. -/
structure Sound (fails : σ → Bool) (below : σ → σ → Prop) (reduce : Reduction σ) : Prop where
  fails : ∀ state, fails state = true → fails (reduce state).1 = true
  idle : ∀ state, (reduce state).2 = false → (reduce state).1 = state
  falls : ∀ state, (reduce state).2 = true → below (reduce state).1 state

variable {fails : σ → Bool} {below : σ → σ → Prop} {candidate : σ → Option σ}
  {first second reduce : Reduction σ} {steps : List (Reduction σ)} {state : σ}

theorem sound_idle : Sound fails below fun state => (state, false) where
  fails := fun _ failing => failing
  idle := fun _ _ => rfl
  falls := fun _ changed => by cases changed

theorem attempt_cases (fails : σ → Bool) (candidate : σ → Option σ) (state : σ) :
    (attempt fails candidate state = (state, false) ∧
        ∀ next, candidate state = some next → fails next = false) ∨
      ∃ next, candidate state = some next ∧ fails next = true ∧
        attempt fails candidate state = (next, true) := by
  unfold attempt
  cases found : candidate state with
  | none => exact .inl ⟨rfl, fun next impossible => by cases impossible⟩
  | some next =>
    cases failing : fails next with
    | true => exact .inr ⟨next, rfl, failing, if_pos failing⟩
    | false =>
      refine .inl ⟨if_neg (Bool.not_eq_true _ ▸ failing), ?_⟩
      rintro other ⟨⟩
      exact failing

theorem sound_attempt (lower : ∀ state next, candidate state = some next → below next state) :
    Sound fails below (attempt fails candidate) := by
  refine ⟨?_, ?_, ?_⟩ <;> intro state <;>
    rcases attempt_cases fails candidate state with ⟨kept, -⟩ | ⟨next, found, failing, taken⟩
  · rw [kept]
    exact id
  · rw [taken]
    exact fun _ => failing
  · rw [kept]
    exact fun _ => rfl
  · rw [taken]
    exact fun changed => by cases changed
  · rw [kept]
    exact fun changed => by cases changed
  · rw [taken]
    exact fun _ => lower state next found

theorem attempt_idle (idle : (attempt fails candidate state).2 = false) :
    ∀ next, candidate state = some next → fails next = false := by
  rcases attempt_cases fails candidate state with ⟨-, refused⟩ | ⟨next, -, -, taken⟩
  · exact refused
  · rw [taken] at idle
    cases idle

section Steps

variable [IsTrans σ below]

theorem Sound.andThen (sound : Sound fails below first) (sound' : Sound fails below second) :
    Sound fails below (andThen first second) where
  fails := fun state failing => sound'.fails _ (sound.fails state failing)
  idle := by
    intro state idle
    obtain ⟨again, changed⟩ := Bool.or_eq_false_iff.mp idle
    exact (sound'.idle _ again).trans (sound.idle state changed)
  falls := by
    intro state moved
    have either : (second (first state).1).2 = true ∨ (first state).2 = true :=
      Bool.or_eq_true_iff.mp moved
    cases again : (second (first state).1).2 with
    | false =>
      have changed : (first state).2 = true := by simpa [again] using either
      have final : (GreedyReduction.andThen first second state).1 = (first state).1 :=
        sound'.idle _ again
      rw [final]
      exact sound.falls state changed
    | true =>
      have later : below (GreedyReduction.andThen first second state).1 (first state).1 :=
        sound'.falls _ again
      cases changed : (first state).2 with
      | false =>
        rw [sound.idle state changed] at later
        exact later
      | true => exact trans_of below later (sound.falls state changed)

theorem Sound.sequence (sound : ∀ step ∈ steps, Sound fails below step) :
    Sound fails below (sequence steps) := by
  induction steps with
  | nil => exact sound_idle
  | cons step steps ih =>
    obtain ⟨here, later⟩ := List.forall_mem_cons.mp sound
    exact here.andThen (ih later)

end Steps

/-- A pass that changes nothing found nothing to do in the state as it was. -/
theorem andThen_idle (sound : Sound fails below first)
    (idle : (andThen first second state).2 = false) :
    (first state).2 = false ∧ (second state).2 = false := by
  obtain ⟨again, changed⟩ := Bool.or_eq_false_iff.mp idle
  refine ⟨changed, ?_⟩
  rwa [sound.idle state changed] at again

theorem sequence_idle (sound : ∀ step ∈ steps, Sound fails below step)
    (idle : (sequence steps state).2 = false) : ∀ step ∈ steps, (step state).2 = false := by
  induction steps with
  | nil => simp
  | cons step steps ih =>
    obtain ⟨here, later⟩ := List.forall_mem_cons.mp sound
    obtain ⟨first, rest⟩ := andThen_idle here idle
    exact List.forall_mem_cons.mpr ⟨first, ih later rest⟩

/-- Going down ends. -/
theorem Sound.ends (sound : Sound fails below reduce) (wellFounded : WellFounded below)
    (state : σ) :
    ∃ count, (∀ earlier < count, (reduce (passes reduce earlier state)).2 = true) ∧
      (reduce (passes reduce count state)).2 = false := by
  induction state using wellFounded.induction with
  | _ state ih =>
    cases changed : (reduce state).2 with
    | false => exact ⟨0, fun _ impossible => absurd impossible (Nat.not_lt_zero _), changed⟩
    | true =>
      obtain ⟨count, busy, idle⟩ := ih _ (sound.falls state changed)
      refine ⟨count + 1, ?_, idle⟩
      intro earlier before
      cases earlier with
      | zero => exact changed
      | succ earlier => exact busy earlier (Nat.lt_of_succ_lt_succ before)

end GreedyReduction
