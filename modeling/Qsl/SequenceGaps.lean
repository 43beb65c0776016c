import Mathlib.Data.List.Basic
import Mathlib.Data.List.Nodup

/- Numbers that arrive one after another, above a first one: the highest so far, the arrivals that
raise it, and the numbers it jumps over. -/
namespace SequenceGaps

open List

/-- The highest of the numbers, and of `top`. -/
def highest (top : Nat) (seqs : List Nat) : Nat := seqs.foldl max top

/-- How many of the numbers are above `top` and all the numbers before them. -/
def raises : Nat → List Nat → Nat
  | _, [] => 0
  | top, seq :: seqs => if top < seq then raises seq seqs + 1 else raises top seqs

/-- The numbers strictly between `low` and `high` that are not there. -/
def absent (low high : Nat) (seqs : List Nat) : List Nat :=
  (List.range' (low + 1) (high - low - 1)).filter (· ∉ seqs)

theorem mem_absent {low high number : Nat} {seqs : List Nat} :
    number ∈ absent low high seqs ↔ low < number ∧ number < high ∧ number ∉ seqs := by
  have range : low + 1 ≤ number ∧ number < low + 1 + (high - low - 1) ↔
      low < number ∧ number < high := by omega
  rw [absent, mem_filter, mem_range'_1, decide_eq_true_iff, range, and_assoc]

theorem absent_nodup (low high : Nat) (seqs : List Nat) : (absent low high seqs).Nodup :=
  List.Nodup.filter _ nodup_range'

@[simp] theorem highest_nil (top : Nat) : highest top [] = top := rfl

theorem highest_raised {top seq : Nat} (seqs : List Nat) (raised : top < seq) :
    highest top (seq :: seqs) = highest seq seqs := by
  rw [highest, foldl_cons, Nat.max_eq_right (Nat.le_of_lt raised), highest]

theorem highest_kept {top seq : Nat} (seqs : List Nat) (kept : ¬ top < seq) :
    highest top (seq :: seqs) = highest top seqs := by
  rw [highest, foldl_cons, Nat.max_eq_left (Nat.le_of_not_lt kept), highest]

theorem le_highest (top : Nat) (seqs : List Nat) : ∀ seq ∈ top :: seqs, seq ≤ highest top seqs := by
  induction seqs generalizing top with
  | nil => simp
  | cons head seqs ih =>
    have step := ih (max top head)
    simp only [forall_mem_cons] at step ⊢
    change top ≤ highest (max top head) seqs ∧ head ≤ highest (max top head) seqs ∧ _
    exact ⟨by omega, by omega, step.2⟩

theorem highest_mem (top : Nat) (seqs : List Nat) : highest top seqs ∈ top :: seqs := by
  induction seqs generalizing top with
  | nil => simp
  | cons head seqs ih =>
    by_cases raised : top < head
    · rw [highest_raised seqs raised]
      exact mem_cons_of_mem top (ih head)
    · rw [highest_kept seqs raised]
      have member := ih top
      simp only [mem_cons] at member ⊢
      tauto

/-- In order, the last number is the highest. -/
theorem highest_sorted {top : Nat} {seqs : List Nat} (sorted : (top :: seqs).Pairwise (· ≤ ·)) :
    highest top seqs = (top :: seqs).getLast (cons_ne_nil _ _) := by
  induction seqs generalizing top with
  | nil => rfl
  | cons head seqs ih =>
    obtain ⟨below, rest⟩ := pairwise_cons.mp sorted
    have first : top ≤ head := below head mem_cons_self
    rw [getLast_cons (cons_ne_nil _ _), ← ih rest]
    change highest (max top head) seqs = highest head seqs
    rw [Nat.max_eq_right first]

theorem absent_outside {low high seq : Nat} (seqs : List Nat) (outside : seq ≤ low ∨ high ≤ seq) :
    absent low high (seq :: seqs) = absent low high seqs := by
  unfold absent
  apply filter_congr
  intro number inside
  rw [mem_range'_1] at inside
  have differ : number ≠ seq := by omega
  simp [differ]

/-- A number that is there parts the absent ones into those before it and those after it. -/
theorem absent_part {low seq high : Nat} (seqs : List Nat) (above : low < seq) (up : seq ≤ high) :
    (absent low high (seq :: seqs)).length =
      (absent low seq seqs).length + (absent seq high seqs).length := by
  rcases Nat.eq_or_lt_of_le up with rfl | room
  · rw [absent_outside seqs (.inr (Nat.le_refl _))]
    simp [absent]
  · have parts : List.range' (low + 1) (high - low - 1) =
        List.range' (low + 1) (seq - low - 1) ++
          (seq :: List.range' (seq + 1) (high - seq - 1)) := by
      have size : high - low - 1 = (seq - low - 1) + ((high - seq - 1) + 1) := by omega
      have start : low + 1 + (seq - low - 1) = seq := by omega
      rw [size, ← range'_append_1, start, range'_succ]
    have gone : (List.range' (low + 1) (high - low - 1)).filter (· ∉ seq :: seqs) =
        absent low seq (seq :: seqs) ++ absent seq high (seq :: seqs) := by
      rw [parts, filter_append, filter_cons_of_neg (by simp)]
      rfl
    rw [absent, gone, length_append, absent_outside seqs (.inr (Nat.le_refl _)),
      absent_outside seqs (.inl (Nat.le_refl _))]

theorem absent_length_le (low high : Nat) (seqs : List Nat) :
    (absent low high seqs).length ≤ high - low - 1 := by
  have bound := length_filter_le (· ∉ seqs) (List.range' (low + 1) (high - low - 1))
  rwa [length_range'] at bound

theorem absent_all {low high : Nat} {seqs : List Nat} (later : ∀ seq ∈ seqs, high ≤ seq) :
    (absent low high seqs).length = high - low - 1 := by
  have all : absent low high seqs = List.range' (low + 1) (high - low - 1) := by
    apply filter_eq_self.mpr
    intro number inside
    rw [mem_range'_1] at inside
    have away : number ∉ seqs := by
      intro member
      have reached := later number member
      omega
    simpa using away
  rw [all, length_range']

section Step

variable {top seq : Nat} (seqs : List Nat)

/-- What a number that raises the highest leaves absent, and what follows it does. -/
theorem absent_raised (raised : top < seq) :
    (absent top (highest top (seq :: seqs)) (seq :: seqs)).length + raises top (seq :: seqs) =
      (absent top seq seqs).length + (absent seq (highest seq seqs) seqs).length +
        (raises seq seqs + 1) := by
  have up : seq ≤ highest seq seqs := le_highest seq seqs seq mem_cons_self
  rw [highest_raised seqs raised, absent_part seqs raised up, raises, if_pos raised]

/-- Any other number changes nothing. -/
theorem absent_kept (kept : ¬ top < seq) :
    (absent top (highest top (seq :: seqs)) (seq :: seqs)).length + raises top (seq :: seqs) =
      (absent top (highest top seqs) seqs).length + raises top seqs := by
  rw [highest_kept seqs kept, absent_outside seqs (.inl (Nat.le_of_not_lt kept)), raises,
    if_neg kept]

end Step

/-- Each raise jumps over the numbers in between, some of which may arrive later. -/
theorem absent_raises_le (top : Nat) (seqs : List Nat) :
    (absent top (highest top seqs) seqs).length + raises top seqs + top ≤ highest top seqs := by
  induction seqs generalizing top with
  | nil => simp [absent, raises]
  | cons seq seqs ih =>
    by_cases raised : top < seq
    · have before := absent_length_le top seq seqs
      have after := ih seq
      rw [absent_raised seqs raised, highest_raised seqs raised]
      omega
    · rw [absent_kept seqs raised, highest_kept seqs raised]
      exact ih top

/-- In order, none of the numbers jumped over arrives later. -/
theorem absent_raises_sorted {top : Nat} {seqs : List Nat}
    (sorted : (top :: seqs).Pairwise (· ≤ ·)) :
    (absent top (highest top seqs) seqs).length + raises top seqs + top = highest top seqs := by
  induction seqs generalizing top with
  | nil => simp [absent, raises]
  | cons seq seqs ih =>
    obtain ⟨below, rest⟩ := pairwise_cons.mp sorted
    have after := ih rest
    by_cases raised : top < seq
    · have before : (absent top seq seqs).length = seq - top - 1 :=
        absent_all (pairwise_cons.mp rest).1
      rw [absent_raised seqs raised, highest_raised seqs raised]
      omega
    · have same : seq = top := Nat.le_antisymm (Nat.le_of_not_lt raised)
        (below seq mem_cons_self)
      rw [absent_kept seqs raised, highest_kept seqs raised]
      rw [same] at after
      exact after

end SequenceGaps
