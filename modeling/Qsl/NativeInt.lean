import Qsl.Decimal

/- The native integers of 63 bits, and their literals as `int_of_string_opt` reads them: a sign, a
base and digits with underscores among them. -/
namespace NativeInt

open List
open Decimal (digit isDigit digitValue minus number print printInt Numeral)

/-- The integers that there are. -/
def Fits (i : Int) : Prop := -2 ^ 62 ≤ i ∧ i < 2 ^ 62

instance instDecidableFits (i : Int) : Decidable (Fits i) := inferInstanceAs (Decidable (_ ∧ _))

def plus : UInt8 := 43

def underscore : UInt8 := 95

/-- The sign of a literal, and the text behind it. -/
def takeSign : List UInt8 → Bool × List UInt8
  | [] => (false, [])
  | byte :: rest =>
    if byte = minus then (true, rest)
    else if byte = plus then (false, rest)
    else (false, byte :: rest)

/-- The base that the letter behind a zero stands for: `x`, `o`, `b` or `u`, small or large. -/
def baseOf (letter : UInt8) : Option Nat :=
  if letter = 120 ∨ letter = 88 then some 16
  else if letter = 111 ∨ letter = 79 then some 8
  else if letter = 98 ∨ letter = 66 then some 2
  else if letter = 117 ∨ letter = 85 then some 10
  else none

structure Radix where
  base : Nat
  signed : Bool
  digits : List UInt8

/-- A literal with a base is unsigned: it stands for 63 bits. -/
def takeBase : List UInt8 → Radix
  | zero :: letter :: rest =>
    if zero = digit 0 then
      match baseOf letter with
      | some base => ⟨base, false, rest⟩
      | none => ⟨10, true, zero :: letter :: rest⟩
    else ⟨10, true, zero :: letter :: rest⟩
  | text => ⟨10, true, text⟩

/-- The value of a digit, `a` to `f` included, if it is one of the base. -/
def digitIn (base : Nat) (byte : UInt8) : Option Nat :=
  let n := byte.toNat
  let value :=
    if isDigit byte then digitValue byte
    else if 65 ≤ n ∧ n ≤ 70 then n - 55
    else if 97 ≤ n ∧ n ≤ 102 then n - 87
    else base
  if value < base then some value else none

def accumulate (base : Nat) : Nat → List UInt8 → Option Nat
  | n, [] => some n
  | n, byte :: rest =>
    if byte = underscore then accumulate base n rest
    else
      match digitIn base byte with
      | some value => accumulate base (base * n + value) rest
      | none => none

/-- The number behind the sign and the base; its first digit is not an underscore. -/
def magnitude (radix : Radix) : Option Nat :=
  match radix.digits with
  | [] => none
  | first :: rest => (digitIn radix.base first).bind (fun n => accumulate radix.base n rest)

def intOfString? (text : List UInt8) : Option Int :=
  let negative := (takeSign text).1
  let radix := takeBase (takeSign text).2
  match magnitude radix with
  | none => none
  | some n =>
    let value : Int := if negative then -n else n
    if radix.signed then if Fits value then some value else none
    else if n < 2 ^ 63 then some (value.bmod (2 ^ 63)) else none

theorem digitIn_ten {byte : UInt8} (numeric : isDigit byte = true) :
    digitIn 10 byte = some (digitValue byte) := by
  have small := (Decimal.digit_digitValue numeric).1
  simp only [digitIn, numeric, if_true, small]

theorem ne_of_isDigit {byte other : UInt8} (numeric : isDigit byte = true)
    (letter : isDigit other = false) : byte ≠ other := by
  rintro rfl
  rw [numeric] at letter
  cases letter

theorem accumulate_digits {text : List UInt8} (digits : ∀ byte ∈ text, isDigit byte = true)
    (n : Nat) :
    accumulate 10 n text = some (text.foldl (fun n byte => 10 * n + digitValue byte) n) := by
  induction text generalizing n with
  | nil => rfl
  | cons byte text ih =>
    obtain ⟨numeric, others⟩ := forall_mem_cons.mp digits
    have letter : byte ≠ underscore := ne_of_isDigit numeric (by decide)
    rw [accumulate, if_neg letter, digitIn_ten numeric]
    exact ih others _

/-- A text of digits has no base: its second letter is a digit. -/
theorem takeBase_digits {text : List UInt8} (digits : ∀ byte ∈ text, isDigit byte = true) :
    takeBase text = ⟨10, true, text⟩ := by
  rcases text with - | ⟨first, - | ⟨letter, rest⟩⟩
  · rfl
  · rfl
  · have numeric := digits letter (mem_cons_of_mem _ mem_cons_self)
    have other : ∀ {byte : UInt8}, isDigit byte = false → letter ≠ byte := ne_of_isDigit numeric
    have none : baseOf letter = none := by
      simp only [baseOf, other (show isDigit 120 = false by decide),
        other (show isDigit 88 = false by decide), other (show isDigit 111 = false by decide),
        other (show isDigit 79 = false by decide), other (show isDigit 98 = false by decide),
        other (show isDigit 66 = false by decide), other (show isDigit 117 = false by decide),
        other (show isDigit 85 = false by decide), or_self, if_false]
    rw [takeBase, none]
    split <;> rfl

section

variable {text : List UInt8} {n : Nat} (numeral : Numeral text n)

include numeral

theorem magnitude_numeral : magnitude (takeBase text) = some n := by
  obtain ⟨filled, digits, value⟩ := numeral
  rw [takeBase_digits digits]
  cases text with
  | nil => exact absurd rfl filled
  | cons first rest =>
    obtain ⟨numeric, others⟩ := forall_mem_cons.mp digits
    have whole : number (first :: rest) =
        rest.foldl (fun n byte => 10 * n + digitValue byte) (digitValue first) := by
      rw [number, foldl_cons, Nat.mul_zero, Nat.zero_add]
    simp only [magnitude, digitIn_ten numeric, Option.bind_some, accumulate_digits others]
    rw [← whole, value]

theorem takeSign_numeral : takeSign text = (false, text) := by
  obtain ⟨filled, digits, -⟩ := numeral
  cases text with
  | nil => rfl
  | cons first rest =>
    have numeric := digits first mem_cons_self
    rw [takeSign, if_neg (ne_of_isDigit numeric (by decide)),
      if_neg (ne_of_isDigit numeric (by decide))]

/-- A numeral is read as its number, if there is such an integer. -/
theorem intOfString?_numeral : intOfString? text = if Fits n then some (n : Int) else none := by
  have signed : (takeBase text).signed = true := by rw [takeBase_digits numeral.2.1]
  simp only [intOfString?, takeSign_numeral numeral, magnitude_numeral numeral, signed,
    Bool.false_eq_true, if_false, if_true]

theorem intOfString?_minus :
    intOfString? (minus :: text) = if Fits (-n) then some (-n : Int) else none := by
  have signed : (takeBase text).signed = true := by rw [takeBase_digits numeral.2.1]
  have sign : takeSign (minus :: text) = (true, text) := rfl
  simp only [intOfString?, sign, magnitude_numeral numeral, signed, if_true]

end

theorem intOfString?_printInt (i : Int) :
    intOfString? (printInt i) = if Fits i then some i else none := by
  have numeral := Decimal.numeral_print i.natAbs
  unfold printInt
  split
  · have value : -(i.natAbs : Int) = i := by omega
    rw [intOfString?_minus numeral, value]
  · have value : (i.natAbs : Int) = i := by omega
    rw [intOfString?_numeral numeral, value]

end NativeInt
