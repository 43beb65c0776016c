import Mathlib.Data.List.Induction
import Mathlib.Data.List.TakeWhile
import Mathlib.Data.Nat.Digits.Lemmas

/- Decimal numerals as texts of bytes: printed without leading zeros, read with any. -/
namespace Decimal

open List

/-- The digits are the bytes from 48 to 57, the letters `0` to `9`. -/
def isDigit (byte : UInt8) : Bool := decide (48 ≤ byte.toNat) && decide (byte.toNat ≤ 57)

def digit (n : Nat) : UInt8 := UInt8.ofNat (48 + n)

def digitValue (byte : UInt8) : Nat := byte.toNat - 48

def number (text : List UInt8) : Nat :=
  text.foldl (fun n byte => 10 * n + digitValue byte) 0

/-- The text of a number, as `std::to_string` prints it. -/
def print (n : Nat) : List UInt8 :=
  if n = 0 then [digit 0] else (Nat.digits 10 n).reverse.map digit

def minus : UInt8 := 45

def printInt (i : Int) : List UInt8 :=
  if i < 0 then minus :: print i.natAbs else print i.natAbs

/-- A text of digits, one at least, that stands for a number. -/
def Numeral (text : List UInt8) (n : Nat) : Prop :=
  text ≠ [] ∧ (∀ byte ∈ text, isDigit byte = true) ∧ number text = n

instance instDecidableNumeral (text : List UInt8) (n : Nat) : Decidable (Numeral text n) :=
  inferInstanceAs (Decidable (_ ∧ _ ∧ _))

theorem isDigit_digit {n : Nat} (small : n < 10) : isDigit (digit n) = true := by
  have value : (digit n).toNat = 48 + n := by
    rw [digit, UInt8.toNat_ofNat']
    omega
  simp only [isDigit, value, Bool.and_eq_true, decide_eq_true_eq]
  omega

theorem digitValue_digit {n : Nat} (small : n < 10) : digitValue (digit n) = n := by
  rw [digitValue, digit, UInt8.toNat_ofNat']
  omega

theorem digit_digitValue {byte : UInt8} (numeric : isDigit byte = true) :
    digitValue byte < 10 ∧ digit (digitValue byte) = byte := by
  simp only [isDigit, Bool.and_eq_true, decide_eq_true_eq] at numeric
  refine ⟨?_, ?_⟩
  · unfold digitValue
    omega
  · rw [digit, digitValue, ← UInt8.toNat_inj, UInt8.toNat_ofNat']
    omega

theorem number_append (text : List UInt8) (byte : UInt8) :
    number (text ++ [byte]) = 10 * number text + digitValue byte := by
  rw [number, foldl_append]
  rfl

theorem number_eq_ofDigits (text : List UInt8) :
    number text = Nat.ofDigits 10 (text.reverse.map digitValue) := by
  induction text using List.reverseRecOn with
  | nil => rfl
  | append_singleton text byte ih =>
    rw [number_append, ih, reverse_append, reverse_singleton, singleton_append,
      map_cons, Nat.ofDigits_cons]
    omega

theorem numeral_print (n : Nat) : Numeral (print n) n := by
  unfold print
  split
  · rename_i zero
    subst zero
    refine ⟨cons_ne_nil _ _, ?_, rfl⟩
    intro byte mem
    rw [mem_singleton.mp mem]
    exact isDigit_digit (by decide)
  · rename_i positive
    have small : ∀ d ∈ Nat.digits 10 n, d < 10 := fun d => Nat.digits_lt_base (by decide)
    refine ⟨?_, ?_, ?_⟩
    · simp [Nat.digits_eq_nil_iff_eq_zero, positive]
    · intro byte mem
      obtain ⟨d, listed, rfl⟩ := mem_map.mp mem
      exact isDigit_digit (small d (mem_reverse.mp listed))
    · rw [number_eq_ofDigits, ← map_reverse, reverse_reverse, map_map]
      have back : (Nat.digits 10 n).map (digitValue ∘ digit) = Nat.digits 10 n :=
        (map_congr_left (g := id) fun d listed => digitValue_digit (small d listed)).trans
          (map_id _)
      rw [back, Nat.ofDigits_digits]

theorem print_length {n width : Nat} (some : 0 < width) (small : n < 10 ^ width) :
    (print n).length ≤ width := by
  unfold print
  split
  · exact some
  · rw [length_map, length_reverse]
    exact (Nat.digits_length_le_iff (by decide) n).mpr small

namespace Numeral

variable {text text' : List UInt8} {n : Nat}

/-- A numeral of given length has one text. -/
theorem text_unique (numeral : Numeral text n) (numeral' : Numeral text' n)
    (length : text.length = text'.length) : text = text' := by
  obtain ⟨-, digits, value⟩ := numeral
  obtain ⟨-, digits', value'⟩ := numeral'
  have small : ∀ {text : List UInt8}, (∀ byte ∈ text, isDigit byte = true) →
      ∀ d ∈ text.reverse.map digitValue, d < 10 := by
    intro text digits d mem
    obtain ⟨byte, listed, rfl⟩ := mem_map.mp mem
    exact (digit_digitValue (digits byte (mem_reverse.mp listed))).1
  have back : ∀ {text : List UInt8}, (∀ byte ∈ text, isDigit byte = true) →
      ((text.reverse.map digitValue).map digit).reverse = text := by
    intro text digits
    have same : text.map (digit ∘ digitValue) = text :=
      (map_congr_left (g := id) fun byte listed =>
        (digit_digitValue (digits byte listed)).2).trans (map_id _)
    rw [map_map, ← map_reverse, reverse_reverse, same]
  have equal := Nat.ofDigits_inj_of_len_eq (by decide : 1 < 10)
    (by rw [length_map, length_map, length_reverse, length_reverse, length])
    (small digits) (small digits')
    (by rw [← number_eq_ofDigits, ← number_eq_ofDigits, value, value'])
  rw [← back digits, equal, back digits']

end Numeral

/- Reading, as `std::from_chars` does it. -/

inductive Errc where
  | invalidArgument
  | resultOutOfRange
  deriving DecidableEq, Repr

/-- The values of an integer type. -/
structure Range where
  low : Int
  high : Int
  deriving DecidableEq, Repr

def unsigned (width : Nat) : Range := ⟨0, 2 ^ width - 1⟩

def signed (width : Nat) : Range := ⟨-2 ^ (width - 1), 2 ^ (width - 1) - 1⟩

/-- The longest text of digits at the front, after a minus sign where the type has one; with it
the bytes that are not read. -/
def fromChars (range : Range) (text : List UInt8) : Except Errc (Int × List UInt8) :=
  let negative : Bool := decide (range.low < 0) && text.head? == some minus
  let rest := if negative then text.tail else text
  let digits := rest.takeWhile isDigit
  if digits.isEmpty then .error .invalidArgument
  else
    let value : Int := if negative then -(number digits : Int) else number digits
    if value < range.low ∨ range.high < value then .error .resultOutOfRange
    else .ok (value, rest.dropWhile isDigit)

theorem Numeral.takeWhile {text : List UInt8} {n : Nat} (numeral : Numeral text n) :
    text.takeWhile isDigit = text ∧ text.dropWhile isDigit = [] := by
  have digits := numeral.2.1
  exact ⟨takeWhile_eq_self_iff.mpr digits, dropWhile_eq_nil_iff.mpr digits⟩

theorem Numeral.head_ne_minus {text : List UInt8} {n : Nat} (numeral : Numeral text n) :
    text.head? ≠ some minus := by
  intro signed
  have digit := numeral.2.1 minus (mem_of_head? signed)
  cases digit

theorem fromChars_numeral {range : Range} {text : List UInt8} {n : Nat} (numeral : Numeral text n)
    (within : range.low ≤ n ∧ n ≤ range.high) : fromChars range text = .ok ((n : Int), []) := by
  obtain ⟨whole, none⟩ := numeral.takeWhile
  have positive : (decide (range.low < 0) && text.head? == some minus) = false := by
    simp [numeral.head_ne_minus]
  have inside : ¬ ((n : Int) < range.low ∨ range.high < n) := by omega
  have filled : text.isEmpty = false := isEmpty_eq_false_iff.mpr numeral.1
  simp only [fromChars, positive, whole, none, filled, numeral.2.2, Bool.false_eq_true, if_false,
    inside]

/-- An unsigned reader takes a text as a whole exactly when it is a numeral that fits. -/
theorem fromChars_unsigned {width : Nat} {text : List UInt8} {value : Int} :
    fromChars (unsigned width) text = .ok (value, []) ↔
      ∃ n : Nat, Numeral text n ∧ n < 2 ^ width ∧ value = n := by
  constructor
  · intro read
    have positive : (decide ((unsigned width).low < 0) && text.head? == some minus) = false := by
      simp [unsigned]
    simp only [fromChars, positive, Bool.false_eq_true, if_false] at read
    split at read
    · cases read
    · rename_i filled
      split at read
      · cases read
      · rename_i inside
        simp only [Except.ok.injEq, Prod.mk.injEq] at read
        obtain ⟨rfl, whole⟩ := read
        have digits := dropWhile_eq_nil_iff.mp whole
        have same := takeWhile_eq_self_iff.mpr digits
        rw [same] at filled inside ⊢
        refine ⟨number text, ⟨?_, digits, rfl⟩, ?_, rfl⟩
        · intro empty
          rw [empty] at filled
          exact filled rfl
        · simp only [unsigned, not_or, not_lt] at inside
          have top := inside.2
          zify
          omega
  · rintro ⟨n, numeral, small, rfl⟩
    refine fromChars_numeral numeral ⟨Int.natCast_nonneg n, ?_⟩
    have small : (n : Int) < 2 ^ width := by exact_mod_cast small
    exact Int.le_sub_one_of_lt small

theorem fromChars_printInt {range : Range} {i : Int} (within : range.low ≤ i ∧ i ≤ range.high) :
    fromChars range (printInt i) = .ok (i, []) := by
  have numeral := numeral_print i.natAbs
  unfold printInt
  split
  · rename_i negative
    obtain ⟨whole, none⟩ := numeral.takeWhile
    have signed : (decide (range.low < 0) && (minus :: print i.natAbs).head? == some minus) =
        true := by
      have low : range.low < 0 := by omega
      simp [low]
    have value : -((i.natAbs : Int)) = i := by omega
    have inside : ¬ (i < range.low ∨ range.high < i) := by omega
    have filled : (print i.natAbs).isEmpty = false := isEmpty_eq_false_iff.mpr numeral.1
    simp only [fromChars, signed, if_true, tail_cons, whole, none, filled, numeral.2.2, value,
      inside, Bool.false_eq_true, if_false]
  · rename_i positive
    have value : ((i.natAbs : Int)) = i := by omega
    have read := fromChars_numeral numeral (by omega : range.low ≤ _ ∧ _ ≤ range.high)
    rw [read, value]

end Decimal
