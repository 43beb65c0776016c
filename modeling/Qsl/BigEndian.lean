import Mathlib.Algebra.Group.Nat.Defs
import Mathlib.Data.List.Induction
import Mathlib.Tactic.Common

/- Unsigned integers as big-endian byte strings, by shifts. -/
namespace BigEndian

open List

/-- The `width` low bytes of a value, the most significant one first. -/
def store : Nat → Nat → List UInt8
  | 0, _ => []
  | width + 1, value => store width (value >>> 8) ++ [UInt8.ofNat value]

def load (bytes : List UInt8) : Nat :=
  bytes.foldl (fun value byte => (value <<< 8) ||| byte.toNat) 0

@[simp] theorem store_length (width value : Nat) : (store width value).length = width := by
  induction width generalizing value with
  | zero => rfl
  | succ width ih => simp [store, ih]

theorem load_concat (bytes : List UInt8) (byte : UInt8) :
    load (bytes ++ [byte]) = load bytes * 256 + byte.toNat := by
  have low : byte.toNat < 2 ^ 8 := byte.toNat_lt
  rw [load, foldl_append]
  change (load bytes <<< 8) ||| byte.toNat = _
  rw [← Nat.shiftLeft_add_eq_or_of_lt low, Nat.shiftLeft_eq]

theorem load_lt (bytes : List UInt8) : load bytes < 256 ^ bytes.length := by
  induction bytes using List.reverseRecOn with
  | nil => decide
  | append_singleton bytes byte ih =>
    have low : byte.toNat < 256 := byte.toNat_lt
    rw [load_concat, length_append, length_singleton, Nat.pow_succ]
    omega

theorem load_store {width value : Nat} (fits : value < 256 ^ width) :
    load (store width value) = value := by
  induction width generalizing value with
  | zero =>
    rw [Nat.pow_zero] at fits
    have zero : value = 0 := by omega
    rw [zero]
    rfl
  | succ width ih =>
    have high : value >>> 8 < 256 ^ width := by
      rw [Nat.shiftRight_eq_div_pow]
      rw [Nat.pow_succ] at fits
      omega
    rw [store, load_concat, ih high, Nat.shiftRight_eq_div_pow]
    have byte : (UInt8.ofNat value).toNat = value % 256 := UInt8.toNat_ofNat'
    rw [byte]
    omega

theorem load_store_UInt64 (value : UInt64) :
    UInt64.ofNat (load (store 8 value.toNat)) = value := by
  rw [load_store value.toNat_lt, UInt64.ofNat_toNat]

theorem load_store_UInt32 (value : UInt32) :
    UInt32.ofNat (load (store 4 value.toNat)) = value := by
  rw [load_store value.toNat_lt, UInt32.ofNat_toNat]

theorem load_store_UInt16 (value : UInt16) :
    UInt16.ofNat (load (store 2 value.toNat)) = value := by
  rw [load_store value.toNat_lt, UInt16.ofNat_toNat]

theorem store_load (bytes : List UInt8) : store bytes.length (load bytes) = bytes := by
  induction bytes using List.reverseRecOn with
  | nil => rfl
  | append_singleton bytes byte ih =>
    have low : byte.toNat < 256 := byte.toNat_lt
    have high : (load bytes * 256 + byte.toNat) >>> 8 = load bytes := by
      rw [Nat.shiftRight_eq_div_pow]
      omega
    have last : UInt8.ofNat (load bytes * 256 + byte.toNat) = byte := by
      apply UInt8.toNat_inj.mp
      rw [UInt8.toNat_ofNat']
      omega
    rw [load_concat, length_append, length_singleton, store, high, last, ih]

/-- Byte strings of one length that load alike are equal. -/
theorem load_injective {bytes others : List UInt8} (lengths : bytes.length = others.length)
    (same : load bytes = load others) : bytes = others := by
  rw [← store_load bytes, ← store_load others, lengths, same]

theorem load_set_ne {bytes : List UInt8} {position : Nat} (inside : position < bytes.length)
    {byte : UInt8} (changed : bytes[position] ≠ byte) :
    load (bytes.set position byte) ≠ load bytes := by
  intro same
  have unchanged := load_injective length_set same
  have there := congrArg (fun list : List UInt8 => list[position]?) unchanged
  simp only [getElem?_set_self inside, getElem?_eq_getElem inside] at there
  exact changed (Option.some.inj there).symm

/-- The `width` bytes at an offset, loaded. -/
def loadAt (bytes : List UInt8) (offset width : Nat) : Nat := load ((bytes.drop offset).take width)

/-- Fields in front of the offset are skipped. -/
theorem loadAt_skip (front rest : List UInt8) {offset width : Nat}
    (before : front.length ≤ offset) :
    loadAt (front ++ rest) offset width = loadAt rest (offset - front.length) width := by
  rw [loadAt, drop_append, drop_eq_nil_of_le before, nil_append, loadAt]

theorem loadAt_store {width value : Nat} (rest : List UInt8) (fits : value < 256 ^ width) :
    loadAt (store width value ++ rest) 0 width = value := by
  rw [loadAt, drop_zero, take_left' (store_length width value), load_store fits]

end BigEndian
