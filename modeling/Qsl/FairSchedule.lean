import Mathlib.Tactic.Common

/- Parties that take turns, and why they come to an end when every party gets its turns. -/
namespace FairSchedule

open List

variable {σ ι : Type} (step : σ → ι → Option σ)

/-- The turns in this order; a turn that cannot be taken is skipped. -/
def run : List ι → σ → σ
  | [], state => state
  | party :: parties, state => run parties ((step state party).getD state)

/-- A measure that no turn raises. Before the end some party can bring it down at its next turn, and
it stays that party until the measure has fallen. -/
structure Progress (holds ended : σ → Prop) (work : σ → Nat) (helper : σ → ι) : Prop where
  kept : ∀ {state next party}, holds state → step state party = some next → holds next
  calm : ∀ {state next party}, holds state → step state party = some next →
    work next < work state ∨ work next = work state ∧ helper next = helper state
  helps : ∀ {state}, holds state → ¬ ended state →
    ∃ next, step state (helper state) = some next ∧ work next < work state
  final : ∀ {state party}, ended state → step state party = none

variable {step} {holds ended : σ → Prop} {work : σ → Nat} {helper : σ → ι}
  (progress : Progress step holds ended work helper)

include progress

theorem run_ended {parties : List ι} {state : σ} (final : ended state) :
    run step parties state = state := by
  induction parties with
  | nil => rfl
  | cons party parties ih => rw [run, progress.final final, Option.getD_none, ih]

theorem run_kept {parties : List ι} {state : σ} (held : holds state) :
    holds (run step parties state) ∧ work (run step parties state) ≤ work state := by
  induction parties generalizing state with
  | nil => exact ⟨held, Nat.le_refl _⟩
  | cons party parties ih =>
    rw [run]
    cases taken : step state party with
    | none => exact ih held
    | some next =>
      obtain ⟨later, below⟩ := ih (progress.kept held taken)
      rw [Option.getD_some]
      rcases progress.calm held taken with less | ⟨same, -⟩
      · exact ⟨later, by omega⟩
      · exact ⟨later, by omega⟩

/-- A round in which the helper has a turn ends the run or brings the measure down. -/
theorem round_falls {parties : List ι} {state : σ} (held : holds state)
    (fair : helper state ∈ parties) :
    ended (run step parties state) ∨ work (run step parties state) < work state := by
  induction parties generalizing state with
  | nil => cases fair
  | cons party parties ih =>
    by_cases final : ended state
    · rw [run_ended progress final]
      exact .inl final
    obtain ⟨after, moves, less⟩ := progress.helps held final
    rw [run]
    cases taken : step state party with
    | none =>
      have other : helper state ≠ party := by
        rintro rfl
        rw [taken] at moves
        cases moves
      exact ih held ((mem_cons.mp fair).resolve_left other)
    | some next =>
      rw [Option.getD_some]
      have later : holds next := progress.kept held taken
      have below : work (run step parties next) ≤ work next := (run_kept progress later).2
      rcases progress.calm held taken with fallen | ⟨same, still⟩
      · exact .inr (by omega)
      · have other : helper state ≠ party := by
          rintro rfl
          rw [taken] at moves
          cases moves
          omega
        rw [← same]
        exact ih later (still ▸ (mem_cons.mp fair).resolve_left other)

/-- As many rounds as the measure says are enough, if everyone has a turn in each. -/
theorem run_ends {rounds : List (List ι)} (fair : ∀ round ∈ rounds, ∀ party, party ∈ round)
    {state : σ} (held : holds state) (enough : work state < rounds.length) :
    ended (run step rounds.flatten state) := by
  have append : ∀ (first second : List ι) (state : σ),
      run step (first ++ second) state = run step second (run step first state) := by
    intro first second
    induction first with
    | nil => exact fun _ => rfl
    | cons party first ih => exact fun state => ih _
  induction rounds generalizing state with
  | nil => cases enough
  | cons round rounds ih =>
    obtain ⟨here, later⟩ := forall_mem_cons.mp fair
    rw [flatten_cons, append]
    rcases round_falls progress held (here (helper state)) with final | fallen
    · rw [run_ended progress final]
      exact final
    · rw [length_cons] at enough
      exact ih later (run_kept progress held).1 (by omega)

end FairSchedule
