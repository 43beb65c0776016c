import Mathlib.Tactic.Common

/- A while loop as a step function with an explicit iteration bound. The bound
is always a variant of the loop, so the result is a state the guard rejects. -/
namespace WhileLoop

variable {σ : Type}

/-- Run `step` until it answers `none`, for at most `bound` iterations. -/
def run (step : σ → Option σ) : Nat → σ → σ
  | 0, state => state
  | bound + 1, state =>
    match step state with
    | none => state
    | some next => run step bound next

theorem run_stop (step : σ → Option σ) (bound : Nat) (state : σ)
    (stopped : step state = none) : run step bound state = state := by
  cases bound with
  | zero => rfl
  | succ bound => simp only [run, stopped]

theorem run_step (step : σ → Option σ) (bound : Nat) (state next : σ)
    (taken : step state = some next) :
    run step (bound + 1) state = run step bound next := by
  simp only [run, taken]

/-- What every iteration keeps, the loop keeps. -/
theorem run_invariant {step : σ → Option σ} (holds : σ → Prop)
    (kept : ∀ state next, step state = some next → holds state → holds next) {state : σ}
    (start : holds state) (bound : Nat) : holds (run step bound state) := by
  induction bound generalizing state with
  | zero => exact start
  | succ bound ih =>
    cases taken : step state with
    | none =>
      rw [run_stop step _ state taken]
      exact start
    | some next =>
      rw [run_step step bound state next taken]
      exact ih (kept state next taken start)

/-- Loops whose iterations agree on an invariant of one of them agree. -/
theorem run_congr {step other : σ → Option σ} (holds : σ → Prop)
    (same : ∀ state, holds state → other state = step state)
    (kept : ∀ state next, step state = some next → holds state → holds next) {state : σ}
    (start : holds state) (bound : Nat) : run other bound state = run step bound state := by
  induction bound generalizing state with
  | zero => rfl
  | succ bound ih =>
    cases taken : step state with
    | none => rw [run_stop step _ state taken, run_stop other _ state ((same _ start).trans taken)]
    | some next =>
      rw [run_step step bound state next taken,
        run_step other bound state next ((same _ start).trans taken)]
      exact ih (kept state next taken start)

/-- A loop with a variant ends by itself. -/
theorem run_ends {step : σ → Option σ} (variant : σ → Nat)
    (falls : ∀ state next, step state = some next → variant next < variant state) {state : σ}
    {bound : Nat} (enough : variant state < bound) : step (run step bound state) = none := by
  induction bound generalizing state with
  | zero => omega
  | succ bound ih =>
    cases taken : step state with
    | none => rw [run_stop step _ state taken, taken]
    | some next =>
      have fallen := falls state next taken
      rw [run_step step bound state next taken]
      exact ih (by omega)

end WhileLoop
