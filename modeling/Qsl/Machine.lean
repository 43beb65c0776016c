import Mathlib.Algebra.GroupWithZero.Nat
import Mathlib.Tactic.Common

/- Deterministic machines that answer every input, and what carries over from one step to a
whole run. -/
namespace Machine

open List

variable {σ τ ι ο : Type}

/-- The state behind a list of inputs and the answer to each. -/
def run (step : σ → ι → σ × ο) : σ → List ι → σ × List ο
  | state, [] => (state, [])
  | state, input :: inputs =>
    let (after, answer) := step state input
    let (final, answers) := run step after inputs
    (final, answer :: answers)

variable {step : σ → ι → σ × ο}

@[simp] theorem run_nil (state : σ) : run step state [] = (state, []) := rfl

theorem run_cons (state : σ) (input : ι) (inputs : List ι) :
    run step state (input :: inputs) =
      ((run step (step state input).1 inputs).1,
        (step state input).2 :: (run step (step state input).1 inputs).2) := rfl

theorem run_append (state : σ) (first second : List ι) :
    run step state (first ++ second) =
      ((run step (run step state first).1 second).1,
        (run step state first).2 ++ (run step (run step state first).1 second).2) := by
  induction first generalizing state with
  | nil => rfl
  | cons input inputs ih => rw [cons_append, run_cons, ih, run_cons, cons_append]

@[simp] theorem run_length (state : σ) (inputs : List ι) :
    (run step state inputs).2.length = inputs.length := by
  induction inputs generalizing state with
  | nil => rfl
  | cons input inputs ih => rw [run_cons, length_cons, ih, length_cons]

/-- What every step keeps, a run keeps. -/
theorem run_invariant (step : σ → ι → σ × ο) (holds : σ → Prop)
    (kept : ∀ state input, holds state → holds (step state input).1) {state : σ}
    (start : holds state) (inputs : List ι) : holds (run step state inputs).1 := by
  induction inputs generalizing state with
  | nil => exact start
  | cons input inputs ih => exact ih (kept state input start)

/-- What every step answers from a state that holds, a run answers throughout. -/
theorem run_answers (step : σ → ι → σ × ο) (holds : σ → Prop) (fit : ο → Prop)
    (kept : ∀ state input, holds state → holds (step state input).1 ∧ fit (step state input).2)
    {state : σ} (start : holds state) (inputs : List ι) :
    ∀ answer ∈ (run step state inputs).2, fit answer := by
  induction inputs generalizing state with
  | nil => exact nofun
  | cons input inputs ih =>
    intro answer member
    obtain ⟨next, first⟩ := kept state input start
    rcases mem_cons.mp member with rfl | later
    · exact first
    · exact ih next answer later

/-- As long as every answer fits, a machine whose states are seen through a map onto another
machine's runs as that one. -/
theorem run_refines_fit (step : σ → ι → σ × ο) (step' : τ → ι → τ × ο) (view : σ → τ)
    (holds : σ → Prop) (fit : ο → Prop)
    (refines : ∀ state input, holds state → fit (step state input).2 →
      holds (step state input).1 ∧
        step' (view state) input = (view (step state input).1, (step state input).2))
    {state : σ} (start : holds state) {inputs : List ι}
    (fits : ∀ answer ∈ (run step state inputs).2, fit answer) :
    holds (run step state inputs).1 ∧
      run step' (view state) inputs =
        (view (run step state inputs).1, (run step state inputs).2) := by
  induction inputs generalizing state with
  | nil => exact ⟨start, rfl⟩
  | cons input inputs ih =>
    rw [run_cons] at fits
    obtain ⟨kept, seen⟩ := refines state input start (fits _ mem_cons_self)
    obtain ⟨final, same⟩ := ih kept (fun answer later => fits answer (mem_cons_of_mem _ later))
    rw [run_cons, run_cons, seen]
    simp only [same]
    exact ⟨final, trivial⟩

/-- A machine whose states are seen through a map onto another machine's runs as that one. -/
theorem run_refines (step : σ → ι → σ × ο) (step' : τ → ι → τ × ο) (view : σ → τ)
    (holds : σ → Prop)
    (refines : ∀ state input, holds state → holds (step state input).1 ∧
      step' (view state) input = (view (step state input).1, (step state input).2))
    {state : σ} (start : holds state) (inputs : List ι) :
    holds (run step state inputs).1 ∧
      run step' (view state) inputs =
        (view (run step state inputs).1, (run step state inputs).2) :=
  run_refines_fit step step' view holds (fun _ => True)
    (fun state input valid _ => refines state input valid) start (fun _ _ => trivial)

/-- Unwinding: inputs that are not seen keep states related, those that are seen keep them
related and show the same. Then the unseen inputs can be left out of a run. -/
theorem run_purge {θ : Type} (step : σ → ι → σ × ο) (seen : ι → Bool) (related : σ → σ → Prop)
    (shown : ο → θ)
    (unseen : ∀ state state' input, seen input = false → related state state' →
      related (step state input).1 state')
    (alike : ∀ state state' input, seen input = true → related state state' →
      related (step state input).1 (step state' input).1 ∧
        shown (step state input).2 = shown (step state' input).2)
    {state state' : σ} (start : related state state') (inputs : List ι) :
    let full := run step state inputs
    let kept := run step state' (inputs.filter seen)
    related full.1 kept.1 ∧
      ((inputs.zip full.2).filter (fun pair => seen pair.1)).map (fun pair => shown pair.2) =
        kept.2.map shown := by
  induction inputs generalizing state state' with
  | nil => exact ⟨start, rfl⟩
  | cons input inputs ih =>
    cases visible : seen input with
    | false =>
      have later := ih (unseen state state' input visible start)
      simp only [run_cons, zip_cons_cons, filter_cons, visible, Bool.false_eq_true,
        if_false]
      exact later
    | true =>
      obtain ⟨next, same⟩ := alike state state' input visible start
      have later := ih next
      simp only [run_cons, zip_cons_cons, filter_cons, visible, if_true, map_cons,
        same]
      exact ⟨later.1, congrArg _ later.2⟩

end Machine
