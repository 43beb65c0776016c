import Qsl.BigEndian

/- Records of fixed layout: fields written into a zeroed buffer at given offsets, and read back
from there. -/
namespace FieldLayout

open List
open BigEndian

/-- Bytes written over a buffer from an offset on. -/
def writeAt (buffer : List UInt8) (offset : Nat) (bytes : List UInt8) : List UInt8 :=
  buffer.take offset ++ bytes ++ buffer.drop (offset + bytes.length)

/-- A zeroed buffer with fields written into it, one after the other. -/
def assemble (size : Nat) (fields : List (Nat × List UInt8)) : List UInt8 :=
  fields.foldl (fun buffer field => writeAt buffer field.1 field.2) (List.replicate size 0)

/-- From a position on, each field starts where the one before it ends, and the last ends the
buffer. -/
def Tiles (size : Nat) : Nat → List (Nat × List UInt8) → Prop
  | position, [] => position = size
  | position, field :: fields => field.1 = position ∧ Tiles size (position + field.2.length) fields

/-- The next field of a buffer that is written up to its offset. -/
theorem writeAt_next (done bytes : List UInt8) (room : Nat) :
    writeAt (done ++ List.replicate room 0) done.length bytes =
      (done ++ bytes) ++ List.replicate (room - bytes.length) 0 := by
  rw [writeAt, take_left, drop_length_add_append, drop_replicate]

/-- Fields that tile the buffer stand in it one behind the other. -/
theorem assemble_tiles {size : Nat} {fields : List (Nat × List UInt8)}
    (tiles : Tiles size 0 fields) : assemble size fields = fields.flatMap Prod.snd := by
  have rest : ∀ (fields : List (Nat × List UInt8)) (done : List UInt8),
      Tiles size done.length fields →
      fields.foldl (fun buffer field => writeAt buffer field.1 field.2)
        (done ++ List.replicate (size - done.length) 0) = done ++ fields.flatMap Prod.snd := by
    intro fields
    induction fields with
    | nil =>
      intro done full
      have full : done.length = size := full
      rw [full, Nat.sub_self]
      rfl
    | cons field fields ih =>
      obtain ⟨offset, bytes⟩ := field
      rintro done ⟨here, later⟩
      have here : offset = done.length := here
      have later : Tiles size (done.length + bytes.length) fields := later
      rw [← length_append] at later
      rw [foldl_cons, here, writeAt_next, Nat.sub_sub, ← length_append,
        ih (done ++ bytes) later, flatMap_cons, append_assoc]
  exact rest fields [] tiles

section Read

/-- The field that a reader finds behind fields it skips. -/
theorem loadAt_next {skipped value offset : Nat} (width : Nat) (rest : List UInt8)
    (behind : skipped ≤ offset) :
    loadAt (store skipped value ++ rest) offset width = loadAt rest (offset - skipped) width := by
  rw [loadAt_skip _ _ (by rw [store_length]; exact behind), store_length]

theorem loadAt_byte (byte : UInt8) (rest : List UInt8) {offset : Nat} (width : Nat)
    (behind : 0 < offset) :
    loadAt (byte :: rest) offset width = loadAt rest (offset - 1) width := by
  rw [← singleton_append, loadAt_skip [byte] rest behind, length_singleton]

theorem getElem?_next {skipped value offset : Nat} (rest : List UInt8)
    (behind : skipped ≤ offset) :
    (store skipped value ++ rest)[offset]? = rest[offset - skipped]? := by
  rw [getElem?_append_right (by rw [store_length]; exact behind), store_length]

theorem loadAt_here_UInt64 (value : UInt64) (rest : List UInt8) :
    loadAt (store 8 value.toNat ++ rest) 0 8 = value.toNat :=
  loadAt_store rest value.toNat_lt

theorem loadAt_here_UInt32 (value : UInt32) (rest : List UInt8) :
    loadAt (store 4 value.toNat ++ rest) 0 4 = value.toNat :=
  loadAt_store rest value.toNat_lt

end Read

section Write

/-- Some of the bytes at an offset. -/
def slice (bytes : List UInt8) (offset width : Nat) : List UInt8 := (bytes.drop offset).take width

theorem slice_append (bytes : List UInt8) (offset width more : Nat) :
    slice bytes offset width ++ slice bytes (offset + width) more =
      slice bytes offset (width + more) := by
  rw [slice, slice, slice, ← drop_drop, take_add]

variable {bytes : List UInt8} {offset : Nat}

theorem loadAt_lt (bytes : List UInt8) (offset width : Nat) :
    loadAt bytes offset width < 256 ^ width := by
  refine Nat.lt_of_lt_of_le (load_lt _) (Nat.pow_le_pow_right (by decide) ?_)
  exact length_take_le _ _

/-- A field that was read is written back as it stood. -/
theorem store_loadAt {width : Nat} (within : offset + width ≤ bytes.length) :
    store width (loadAt bytes offset width) = slice bytes offset width := by
  have length : (slice bytes offset width).length = width := by
    rw [slice, length_take, length_drop]
    omega
  have stored := store_load (slice bytes offset width)
  rw [length] at stored
  exact stored

theorem store_loadAt_UInt64 (within : offset + 8 ≤ bytes.length) :
    store 8 (UInt64.ofNat (loadAt bytes offset 8)).toNat = slice bytes offset 8 := by
  rw [UInt64.toNat_ofNat_of_lt' (loadAt_lt bytes offset 8), store_loadAt within]

theorem store_loadAt_UInt32 (within : offset + 4 ≤ bytes.length) :
    store 4 (UInt32.ofNat (loadAt bytes offset 4)).toNat = slice bytes offset 4 := by
  rw [UInt32.toNat_ofNat_of_lt' (loadAt_lt bytes offset 4), store_loadAt within]

theorem getD_slice (within : offset < bytes.length) (default : UInt8) :
    [bytes.getD offset default] = slice bytes offset 1 := by
  rw [slice, drop_eq_getElem_cons within, take_succ_cons, take_zero,
    getD_eq_getElem?_getD, getElem?_eq_getElem within]
  rfl

end Write

section Reader

variable {ε α β : Type} {reader : Except ε α}

/-- What a reader of several steps read, it read step by step. -/
theorem bind_ok {next : α → Except ε β} {value : β} (read : reader >>= next = .ok value) :
    ∃ first, reader = .ok first ∧ next first = .ok value := by
  cases reader with
  | error reason => cases read
  | ok first => exact ⟨first, rfl, read⟩

theorem map_ok {change : α → β} {value : β} (read : change <$> reader = .ok value) :
    ∃ first, reader = .ok first ∧ change first = value := by
  cases reader with
  | error reason => cases read
  | ok first =>
    cases read
    exact ⟨first, rfl, rfl⟩

end Reader

end FieldLayout
