import Mathlib.Data.List.Sort
import Mathlib.Order.Bounds.Basic
import Mathlib.Tactic.Common

/- A set of slots kept in an array of 64-bit words, and the scans that find the
next member upwards or downwards a word at a time. -/
namespace Bitmap

open List

/-- The words; the array is addressed only below its length. -/
abbrev Words := Nat → BitVec 64

def test (bits : Words) (slot : Nat) : Bool := (bits (slot / 64)).getLsbD (slot % 64)

def set (bits : Words) (slot : Nat) : Words := fun word =>
  if word = slot / 64 then bits word ||| (1#64 <<< (slot % 64)) else bits word

def clear (bits : Words) (slot : Nat) : Words := fun word =>
  if word = slot / 64 then bits word &&& ~~~(1#64 <<< (slot % 64)) else bits word

/-- The slots below `limit` that are set. -/
def members (limit : Nat) (bits : Words) : Set Nat := {slot | slot < limit ∧ test bits slot = true}

theorem single_bit (offset i : Nat) (small : offset < 64) :
    (1#64 <<< offset).getLsbD i = decide (i = offset) := by
  rw [← BitVec.twoPow_eq, BitVec.getLsbD_twoPow]
  simp only [small, decide_true, Bool.true_and, eq_comm]

theorem slot_ext {slot other : Nat} (words : other / 64 = slot / 64)
    (bits : other % 64 = slot % 64) : other = slot := by
  omega

theorem test_set (bits : Words) (slot other : Nat) :
    test (set bits slot) other = (decide (other = slot) || test bits other) := by
  have bit := single_bit (slot % 64) (other % 64) (Nat.mod_lt _ (by decide))
  rw [test, set]
  by_cases word : other / 64 = slot / 64
  · rw [if_pos word, BitVec.getLsbD_or, bit, Bool.or_comm]
    by_cases offset : other % 64 = slot % 64
    · rw [slot_ext word offset]
      simp
    · have differ : other ≠ slot := fun same => offset (by rw [same])
      simp [offset, differ, test]
  · have differ : other ≠ slot := fun same => word (by rw [same])
    simp [word, differ, test]

theorem test_clear (bits : Words) (slot other : Nat) :
    test (clear bits slot) other = (!decide (other = slot) && test bits other) := by
  have bit := single_bit (slot % 64) (other % 64) (Nat.mod_lt _ (by decide))
  have small : other % 64 < 64 := Nat.mod_lt _ (by decide)
  rw [test, clear]
  by_cases word : other / 64 = slot / 64
  · rw [if_pos word, BitVec.getLsbD_and, BitVec.getLsbD_not, bit, Bool.and_comm]
    by_cases offset : other % 64 = slot % 64
    · rw [slot_ext word offset]
      simp
    · have differ : other ≠ slot := fun same => offset (by rw [same])
      simp [offset, differ, test, small]
  · have differ : other ≠ slot := fun same => word (by rw [same])
    simp [word, differ, test]

/-- A slot is bit `i` of word `word`. -/
theorem test_word (bits : Words) (word i : Nat) (small : i < 64) :
    test bits (word * 64 + i) = (bits word).getLsbD i := by
  have quotient : (word * 64 + i) / 64 = word := by omega
  have rest : (word * 64 + i) % 64 = i := by omega
  rw [test, quotient, rest]

section Up

/-- The word as an upward scan from `start` sees it: lower slots masked off. -/
def wordUp (bits : Words) (start word : Nat) : BitVec 64 :=
  if word = start / 64 then bits word &&& (BitVec.allOnes 64 <<< (start % 64)) else bits word

def scanUp (bits : Words) (start : Nat) (words : List Nat) : Option Nat :=
  words.findSome? (fun word =>
    if wordUp bits start word = 0#64 then none
    else some (word * 64 + (wordUp bits start word).ctz.toNat))

/-- Lowest member at or above `start` in an array of `words` words. -/
def nextUp (words : Nat) (bits : Words) (start : Nat) : Option Nat :=
  scanUp bits start (List.range' (start / 64) (words - start / 64))

variable (bits : Words) (start : Nat)

theorem wordUp_bit (word i : Nat) (small : i < 64) (later : start / 64 ≤ word) :
    (wordUp bits start word).getLsbD i =
      (decide (start ≤ word * 64 + i) && test bits (word * 64 + i)) := by
  rw [wordUp, test_word bits word i small]
  split
  · rename_i same
    rw [BitVec.getLsbD_and, BitVec.getLsbD_shiftLeft, BitVec.getLsbD_allOnes]
    have place : (¬ i < start % 64) ↔ start ≤ word * 64 + i := by omega
    have inside : i - start % 64 < 64 := by omega
    by_cases below : i < start % 64
    · simp [below, mt place.mpr (not_not.mpr below)]
    · simp [below, place.mp below, small, inside]
  · have passed : start ≤ word * 64 + i := by omega
    simp [passed]

theorem scanUp_spec (count word : Nat) (later : start / 64 ≤ word)
    (passed : ∀ slot, start ≤ slot → slot < word * 64 → test bits slot = false) :
    match scanUp bits start (List.range' word count) with
    | none => ∀ slot, start ≤ slot → slot < (word + count) * 64 → test bits slot = false
    | some found => start ≤ found ∧ found < (word + count) * 64 ∧ test bits found = true ∧
        ∀ slot, start ≤ slot → slot < found → test bits slot = false := by
  induction count generalizing word with
  | zero => exact passed
  | succ count ih =>
    rw [range'_succ, scanUp, findSome?_cons]
    by_cases empty : wordUp bits start word = 0#64
    · rw [if_pos empty]
      have clear : ∀ slot, start ≤ slot → slot < (word + 1) * 64 → test bits slot = false := by
        intro slot from_start below
        by_cases earlier : slot < word * 64
        · exact passed slot from_start earlier
        · have bit := wordUp_bit bits start word (slot - word * 64) (by omega) later
          have place : word * 64 + (slot - word * 64) = slot := by omega
          rw [empty, place] at bit
          simpa [from_start] using bit
      have rest := ih (word + 1) (by omega) clear
      have total : word + 1 + count = word + (count + 1) := by omega
      rw [total] at rest
      exact rest
    · rw [if_neg empty]
      have lowest := BitVec.getLsbD_true_ctz_of_ne_zero empty
      have small := BitVec.lt_of_getLsbD lowest
      rw [wordUp_bit bits start word _ small later, Bool.and_eq_true, decide_eq_true_iff] at lowest
      refine ⟨lowest.1, by omega, lowest.2, ?_⟩
      intro slot from_start below
      by_cases earlier : slot < word * 64
      · exact passed slot from_start earlier
      · have bit := wordUp_bit bits start word (slot - word * 64) (by omega) later
        have place : word * 64 + (slot - word * 64) = slot := by omega
        rw [BitVec.getLsbD_false_of_lt_ctz (by omega), place] at bit
        simpa [from_start] using bit.symm

/-- The members at or above `start`, lowest first. -/
def above (limit : Nat) (bits : Words) (start : Nat) : List Nat :=
  (List.range' start (limit - start)).filter (test bits)

variable {start}

theorem nextUp_spec (words : Nat) (inside : start ≤ words * 64) :
    match nextUp words bits start with
    | none => ∀ slot, start ≤ slot → slot < words * 64 → test bits slot = false
    | some found => start ≤ found ∧ found < words * 64 ∧ test bits found = true ∧
        ∀ slot, start ≤ slot → slot < found → test bits slot = false := by
  have spec := scanUp_spec bits start (words - start / 64) (start / 64) (Nat.le_refl _)
    (fun slot from_start below => by omega)
  have total : start / 64 + (words - start / 64) = words := by omega
  rw [total] at spec
  exact spec

/-- The upward scan finds the first of the members above, and the scan after it
the rest of them. -/
theorem above_nextUp (words : Nat) (inside : start ≤ words * 64) :
    above (words * 64) bits start = match nextUp words bits start with
      | none => []
      | some found => found :: above (words * 64) bits (found + 1) := by
  have spec := nextUp_spec bits words inside
  cases search : nextUp words bits start with
  | none =>
    rw [search] at spec
    apply filter_eq_nil_iff.mpr
    intro slot member
    rw [mem_range'_1] at member
    rw [spec slot member.1 (by omega)]
    exact Bool.false_ne_true
  | some found =>
    rw [search] at spec
    obtain ⟨from_start, below, hit, clear⟩ := spec
    have parts : List.range' start (words * 64 - start) =
        List.range' start (found - start) ++
          found :: List.range' (found + 1) (words * 64 - (found + 1)) := by
      have joined : List.range' start (found - start) ++
          List.range' (start + (found - start)) (words * 64 - found) =
            List.range' start (found - start + (words * 64 - found)) := range'_append_1
      have first : start + (found - start) = found := by omega
      have length : found - start + (words * 64 - found) = words * 64 - start := by omega
      have split : words * 64 - found = (words * 64 - (found + 1)) + 1 := by omega
      rw [first, length, split, range'_succ] at joined
      exact joined.symm
    have skipped : (List.range' start (found - start)).filter (test bits) = [] := by
      apply filter_eq_nil_iff.mpr
      intro slot member
      rw [mem_range'_1] at member
      rw [clear slot member.1 (by omega)]
      exact Bool.false_ne_true
    rw [above, parts, filter_append, skipped, filter_cons_of_pos hit]
    rfl

end Up

section Down

/-- The word as a downward scan from `start` sees it: higher slots masked off. -/
def wordDown (bits : Words) (start word : Nat) : BitVec 64 :=
  if word = start / 64 ∧ start % 64 ≠ 63 then bits word &&& ((1#64 <<< (start % 64 + 1)) - 1#64)
  else bits word

def scanDown (bits : Words) (start : Nat) (words : List Nat) : Option Nat :=
  words.findSome? (fun word =>
    if wordDown bits start word = 0#64 then none
    else some (word * 64 + (63 - (wordDown bits start word).clz.toNat)))

/-- Highest member at or below `start`. -/
def nextDown (bits : Words) (start : Nat) : Option Nat :=
  scanDown bits start (List.range (start / 64 + 1)).reverse

variable (bits : Words) (start : Nat)

theorem low_mask (count i : Nat) (small : count < 64) (inside : i < 64) :
    ((1#64 <<< count) - 1#64).getLsbD i = decide (i < count) := by
  have power : 2 ^ count < 2 ^ 64 := Nat.pow_lt_pow_right (by decide) small
  have positive : 0 < 2 ^ count := Nat.two_pow_pos count
  have mask : (1#64 <<< count) - 1#64 = BitVec.ofNat 64 (2 ^ count - 1) := by
    apply BitVec.eq_of_toNat_eq
    rw [BitVec.toNat_sub, BitVec.toNat_shiftLeft, BitVec.toNat_ofNat, Nat.shiftLeft_eq,
      BitVec.toNat_ofNat, Nat.mod_eq_of_lt (by omega : 2 ^ count - 1 < 2 ^ 64)]
    have first : 1 % 2 ^ 64 * 2 ^ count % 2 ^ 64 = 2 ^ count := by
      rw [Nat.mod_eq_of_lt (by decide : 1 < 2 ^ 64), Nat.one_mul, Nat.mod_eq_of_lt power]
    rw [first]
    omega
  rw [mask, BitVec.getLsbD_ofNat, Nat.testBit_two_pow_sub_one]
  simp [inside]

theorem wordDown_bit (word i : Nat) (small : i < 64) (earlier : word ≤ start / 64) :
    (wordDown bits start word).getLsbD i =
      (decide (word * 64 + i ≤ start) && test bits (word * 64 + i)) := by
  rw [wordDown, test_word bits word i small]
  split
  · rename_i masked
    rw [BitVec.getLsbD_and, low_mask _ _ (by omega) small]
    have place : i < start % 64 + 1 ↔ word * 64 + i ≤ start := by omega
    simp only [place, Bool.and_comm]
  · have passed : word * 64 + i ≤ start := by omega
    simp [passed]

theorem bit_above_clz {value : BitVec 64} {i : Nat} (high : 63 - value.clz.toNat < i) :
    value.getLsbD i = false := by
  have small : value.toNat < 2 ^ (64 - value.clz.toNat) := BitVec.toNat_lt_two_pow_sub_clz
  have wider : 2 ^ (64 - value.clz.toNat) ≤ 2 ^ i := Nat.pow_le_pow_right (by decide) (by omega)
  rw [← BitVec.testBit_toNat]
  exact Nat.testBit_lt_two_pow (Nat.lt_of_lt_of_le small wider)

theorem scanDown_spec (count : Nat) (earlier : count ≤ start / 64 + 1)
    (passed : ∀ slot, count * 64 ≤ slot → slot ≤ start → test bits slot = false) :
    match scanDown bits start (List.range count).reverse with
    | none => ∀ slot, slot ≤ start → test bits slot = false
    | some found => found ≤ start ∧ test bits found = true ∧
        ∀ slot, found < slot → slot ≤ start → test bits slot = false := by
  induction count with
  | zero => exact fun slot below => passed slot (by omega) below
  | succ word ih =>
    rw [range_succ, reverse_append, reverse_singleton, singleton_append,
      scanDown, findSome?_cons]
    have within : word ≤ start / 64 := by omega
    by_cases empty : wordDown bits start word = 0#64
    · rw [if_pos empty]
      apply ih (by omega)
      intro slot from_word below
      by_cases later : (word + 1) * 64 ≤ slot
      · exact passed slot later below
      · have bit := wordDown_bit bits start word (slot - word * 64) (by omega) within
        have place : word * 64 + (slot - word * 64) = slot := by omega
        rw [empty, place] at bit
        simpa [below] using bit
    · rw [if_neg empty]
      have highest := BitVec.getLsbD_true_clz_of_ne_zero (by decide) empty
      have small := BitVec.lt_of_getLsbD highest
      rw [wordDown_bit bits start word _ small within, Bool.and_eq_true, decide_eq_true_iff]
        at highest
      refine ⟨highest.1, highest.2, ?_⟩
      intro slot above below
      by_cases later : (word + 1) * 64 ≤ slot
      · exact passed slot later below
      · have bit := wordDown_bit bits start word (slot - word * 64) (by omega) within
        have place : word * 64 + (slot - word * 64) = slot := by omega
        rw [bit_above_clz (by omega), place] at bit
        simpa [below] using bit.symm

theorem nextDown_spec :
    match nextDown bits start with
    | none => ∀ slot, slot ≤ start → test bits slot = false
    | some found => found ≤ start ∧ test bits found = true ∧
        ∀ slot, found < slot → slot ≤ start → test bits slot = false :=
  scanDown_spec bits start (start / 64 + 1) (Nat.le_refl _) (fun slot above under => by omega)

/-- The members below `limit`, highest first. -/
def below (bits : Words) (limit : Nat) : List Nat := (List.range limit).reverse.filter (test bits)

/-- The downward scan finds the first of the members below, and the scan under it
the rest of them. -/
theorem below_nextDown : below bits (start + 1) = match nextDown bits start with
    | none => []
    | some found => found :: below bits found := by
  have spec := nextDown_spec bits start
  cases search : nextDown bits start with
  | none =>
    rw [search] at spec
    apply filter_eq_nil_iff.mpr
    intro slot member
    rw [mem_reverse, mem_range] at member
    rw [spec slot (by omega)]
    exact Bool.false_ne_true
  | some found =>
    rw [search] at spec
    obtain ⟨under, hit, clear⟩ := spec
    have parts : List.range (start + 1) =
        List.range found ++ found :: List.range' (found + 1) (start - found) := by
      have joined : List.range' 0 found ++ List.range' (0 + found) (start + 1 - found) =
          List.range' 0 (found + (start + 1 - found)) := range'_append_1
      have length : found + (start + 1 - found) = start + 1 := by omega
      have split : start + 1 - found = (start - found) + 1 := by omega
      rw [length, split, Nat.zero_add, range'_succ] at joined
      rw [range_eq_range', range_eq_range', joined]
    have skipped : (List.range' (found + 1) (start - found)).reverse.filter (test bits) = [] := by
      apply filter_eq_nil_iff.mpr
      intro slot member
      rw [mem_reverse, mem_range'_1] at member
      rw [clear slot (by omega) (by omega)]
      exact Bool.false_ne_true
    rw [below, parts, reverse_append, reverse_cons, append_assoc,
      filter_append, skipped, nil_append, singleton_append,
      filter_cons_of_pos hit]
    rfl

end Down

section Extremes

variable {bits : Words} {start found : Nat} {words : Nat}

/-- The upward scan answers the least member at or above `start`. -/
theorem nextUp_least (inside : start ≤ words * 64) :
    nextUp words bits start = some found ↔
      IsLeast (members (words * 64) bits ∩ Set.Ici start) found := by
  have spec := nextUp_spec bits words inside
  constructor
  · intro search
    rw [search] at spec
    obtain ⟨from_start, below, hit, clear⟩ := spec
    refine ⟨⟨⟨below, hit⟩, from_start⟩, ?_⟩
    intro slot member
    obtain ⟨⟨_, set⟩, later⟩ := member
    by_contra earlier
    rw [clear slot later (by omega)] at set
    cases set
  · rintro ⟨⟨⟨below, hit⟩, from_start⟩, least⟩
    cases search : nextUp words bits start with
    | none =>
      rw [search] at spec
      rw [spec found from_start below] at hit
      cases hit
    | some first =>
      rw [search] at spec
      obtain ⟨later, within, set, clear⟩ := spec
      have lower := least ⟨⟨within, set⟩, later⟩
      by_cases same : first = found
      · rw [same]
      · rw [clear found from_start (by omega)] at hit
        cases hit

theorem nextUp_none (inside : start ≤ words * 64) :
    nextUp words bits start = none ↔ members (words * 64) bits ∩ Set.Ici start = ∅ := by
  have spec := nextUp_spec bits words inside
  rw [Set.eq_empty_iff_forall_notMem]
  constructor
  · intro search slot member
    rw [search] at spec
    obtain ⟨⟨below, set⟩, later⟩ := member
    rw [spec slot later below] at set
    cases set
  · intro empty
    cases search : nextUp words bits start with
    | none => rfl
    | some first => exact absurd ((nextUp_least inside).mp search).1 (empty first)

/-- The downward scan answers the greatest member at or below `start`. -/
theorem nextDown_greatest (inside : start < words * 64) :
    nextDown bits start = some found ↔
      IsGreatest (members (words * 64) bits ∩ Set.Iic start) found := by
  have spec := nextDown_spec bits start
  constructor
  · intro search
    rw [search] at spec
    obtain ⟨under, hit, clear⟩ := spec
    refine ⟨⟨⟨by omega, hit⟩, under⟩, ?_⟩
    intro slot member
    obtain ⟨⟨_, set⟩, lower⟩ := member
    by_contra higher
    rw [clear slot (by omega) lower] at set
    cases set
  · rintro ⟨⟨⟨_, hit⟩, under⟩, greatest⟩
    cases search : nextDown bits start with
    | none =>
      rw [search] at spec
      rw [spec found under] at hit
      cases hit
    | some first =>
      rw [search] at spec
      obtain ⟨lower, set, clear⟩ := spec
      have higher := greatest ⟨⟨Nat.lt_of_le_of_lt lower inside, set⟩, lower⟩
      by_cases same : first = found
      · rw [same]
      · rw [clear found (by omega) under] at hit
        cases hit

theorem nextDown_none (inside : start < words * 64) :
    nextDown bits start = none ↔ members (words * 64) bits ∩ Set.Iic start = ∅ := by
  have spec := nextDown_spec bits start
  rw [Set.eq_empty_iff_forall_notMem]
  constructor
  · intro search slot member
    rw [search] at spec
    obtain ⟨⟨_, set⟩, lower⟩ := member
    rw [spec slot lower] at set
    cases set
  · intro empty
    cases search : nextDown bits start with
    | none => rfl
    | some first => exact absurd ((nextDown_greatest inside).mp search).1 (empty first)

end Extremes

/- The scans once more, with every array access and every shift checked. -/
section Checked

inductive Fault where
  | word (index : Nat)
  | shift (amount : Nat)
  deriving DecidableEq, Repr

def readWord (words : Nat) (bits : Words) (index : Nat) : Except Fault (BitVec 64) :=
  if index < words then .ok (bits index) else .error (.word index)

def shiftLeft (value : BitVec 64) (amount : Nat) : Except Fault (BitVec 64) :=
  if amount < 64 then .ok (value <<< amount) else .error (.shift amount)

def checkedWordUp (words : Nat) (bits : Words) (start word : Nat) :
    Except Fault (BitVec 64) := do
  let value ← readWord words bits word
  if word = start / 64 then
    let mask ← shiftLeft (BitVec.allOnes 64) (start % 64)
    return value &&& mask
  else return value

def checkedUp (words : Nat) (bits : Words) (start : Nat) : List Nat → Except Fault (Option Nat)
  | [] => .ok none
  | word :: later => do
      let value ← checkedWordUp words bits start word
      if value = 0#64 then checkedUp words bits start later
      else return some (word * 64 + value.ctz.toNat)

def checkedNextUp (words : Nat) (bits : Words) (start : Nat) : Except Fault (Option Nat) :=
  checkedUp words bits start (List.range' (start / 64) (words - start / 64))

def checkedWordDown (words : Nat) (bits : Words) (start word : Nat) :
    Except Fault (BitVec 64) := do
  let value ← readWord words bits word
  if word = start / 64 ∧ start % 64 ≠ 63 then
    let bit ← shiftLeft 1#64 (start % 64 + 1)
    return value &&& (bit - 1#64)
  else return value

def checkedDown (words : Nat) (bits : Words) (start : Nat) : List Nat → Except Fault (Option Nat)
  | [] => .ok none
  | word :: lower => do
      let value ← checkedWordDown words bits start word
      if value = 0#64 then checkedDown words bits start lower
      else return some (word * 64 + (63 - value.clz.toNat))

def checkedNextDown (words : Nat) (bits : Words) (start : Nat) : Except Fault (Option Nat) :=
  checkedDown words bits start (List.range (start / 64 + 1)).reverse

variable {words : Nat} (bits : Words) {start : Nat}

theorem checkedWordUp_eq {word : Nat} (inside : word < words) :
    checkedWordUp words bits start word = .ok (wordUp bits start word) := by
  have narrow : start % 64 < 64 := Nat.mod_lt _ (by decide)
  simp only [checkedWordUp, readWord, if_pos inside, shiftLeft, if_pos narrow, wordUp]
  split <;> rfl

theorem checkedWordDown_eq {word : Nat} (inside : word < words) :
    checkedWordDown words bits start word = .ok (wordDown bits start word) := by
  simp only [checkedWordDown, readWord, if_pos inside, wordDown]
  by_cases masked : word = start / 64 ∧ start % 64 ≠ 63
  · have narrow : start % 64 + 1 < 64 := by omega
    simp only [if_pos masked, shiftLeft, if_pos narrow]
    rfl
  · simp only [if_neg masked]
    rfl

theorem checkedUp_eq (list : List Nat) (inside : ∀ word ∈ list, word < words) :
    checkedUp words bits start list = .ok (scanUp bits start list) := by
  induction list with
  | nil => rfl
  | cons word later ih =>
    have rest := ih (fun other member => inside other (mem_cons_of_mem _ member))
    rw [checkedUp, checkedWordUp_eq bits (inside word mem_cons_self), scanUp,
      findSome?_cons]
    by_cases empty : wordUp bits start word = 0#64
    · rw [if_pos empty]
      exact (if_pos empty).trans rest
    · rw [if_neg empty]
      exact if_neg empty

theorem checkedDown_eq (list : List Nat) (inside : ∀ word ∈ list, word < words) :
    checkedDown words bits start list = .ok (scanDown bits start list) := by
  induction list with
  | nil => rfl
  | cons word lower ih =>
    have rest := ih (fun other member => inside other (mem_cons_of_mem _ member))
    rw [checkedDown, checkedWordDown_eq bits (inside word mem_cons_self), scanDown,
      findSome?_cons]
    by_cases empty : wordDown bits start word = 0#64
    · rw [if_pos empty]
      exact (if_pos empty).trans rest
    · rw [if_neg empty]
      exact if_neg empty

/-- An upward scan stays inside the array and never shifts too far. -/
theorem checkedNextUp_eq :
    checkedNextUp words bits start = .ok (nextUp words bits start) := by
  apply checkedUp_eq
  intro word member
  rw [mem_range'_1] at member
  omega

theorem checkedNextDown_eq (inside : start < words * 64) :
    checkedNextDown words bits start = .ok (nextDown bits start) := by
  apply checkedDown_eq
  intro word member
  rw [mem_reverse, mem_range] at member
  omega

end Checked

end Bitmap
