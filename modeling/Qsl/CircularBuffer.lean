import Mathlib.Logic.Function.Basic
import Mathlib.Tactic.Common

/- Queues in a circle of slots, from a read cursor up to a write cursor. Any two cursors
describe a queue, and one slot always stays free. -/
namespace CircularBuffer

open List

variable {distance : Nat}

variable {α : Type} {n : Nat}

/-- The slot after this one. -/
def next (slot : Fin n) : Fin n := ⟨(slot.val + 1) % n, Nat.mod_lt _ slot.pos⟩

/-- The slot some way on from here. -/
def ahead (slot : Fin n) (distance : Nat) : Fin n :=
  ⟨(slot.val + distance) % n, Nat.mod_lt _ slot.pos⟩

/-- The way from one cursor on to another. -/
def span (head tail : Fin n) : Nat := (tail.val + n - head.val) % n

/-- What lies from the read cursor up to the write cursor. -/
def contents (read : Fin n → α) (head tail : Fin n) : List α :=
  (List.range (span head tail)).map (fun distance => read (ahead head distance))

theorem next_val (slot : Fin n) :
    (next slot).val = if slot.val + 1 = n then 0 else slot.val + 1 := by
  have bounded := slot.isLt
  unfold next
  split
  · rename_i last
    simp only [last, Nat.mod_self]
  · exact Nat.mod_eq_of_lt (by omega)

theorem ahead_val (slot : Fin n) (short : distance < n) :
    (ahead slot distance).val =
      if slot.val + distance < n then slot.val + distance else slot.val + distance - n := by
  have bounded := slot.isLt
  unfold ahead
  split
  · rename_i inside
    exact Nat.mod_eq_of_lt inside
  · show (slot.val + distance) % n = _
    rw [Nat.mod_eq_sub_mod (by omega), Nat.mod_eq_of_lt (by omega)]

theorem span_val (head tail : Fin n) :
    span head tail =
      if head.val ≤ tail.val then tail.val - head.val else tail.val + n - head.val := by
  have first := head.isLt
  have last := tail.isLt
  unfold span
  split
  · rw [Nat.mod_eq_sub_mod (by omega), Nat.mod_eq_of_lt (by omega)]
    omega
  · exact Nat.mod_eq_of_lt (by omega)

theorem span_lt (head tail : Fin n) : span head tail < n := Nat.mod_lt _ head.pos

theorem span_eq_zero {head tail : Fin n} : span head tail = 0 ↔ head = tail := by
  have first := head.isLt
  have last := tail.isLt
  rw [span_val, Fin.ext_iff]
  split <;> omega

/-- The write cursor moves on. -/
theorem span_next {head tail : Fin n} (room : next tail ≠ head) :
    span head (next tail) = span head tail + 1 := by
  have first := head.isLt
  have last := tail.isLt
  rw [Ne, Fin.ext_iff, next_val] at room
  rw [span_val, span_val, next_val]
  by_cases wraps : tail.val + 1 = n
  · rw [if_pos wraps] at room ⊢
    split <;> split <;> omega
  · rw [if_neg wraps] at room ⊢
    split <;> split <;> omega

/-- The write cursor would reach the read cursor: all slots but one are taken. -/
theorem span_full {head tail : Fin n} : next tail = head ↔ span head tail + 1 = n := by
  have first := head.isLt
  have last := tail.isLt
  rw [Fin.ext_iff, next_val, span_val]
  split <;> split <;> omega

/-- The read cursor moves on. -/
theorem span_advance {head tail : Fin n} (some : head ≠ tail) :
    span head tail = span (next head) tail + 1 := by
  have first := head.isLt
  have last := tail.isLt
  rw [Ne, Fin.ext_iff] at some
  rw [span_val, span_val, next_val]
  split <;> split <;> split <;> omega

theorem ahead_zero (slot : Fin n) : ahead slot 0 = slot :=
  Fin.ext (Nat.mod_eq_of_lt slot.isLt)

theorem ahead_next (slot : Fin n) (distance : Nat) :
    ahead (next slot) distance = ahead slot (distance + 1) := by
  apply Fin.ext
  show ((slot.val + 1) % n + distance) % n = (slot.val + (distance + 1)) % n
  rw [Nat.mod_add_mod, Nat.add_assoc, Nat.add_comm 1]

theorem ahead_span (head tail : Fin n) : ahead head (span head tail) = tail := by
  have first := head.isLt
  have last := tail.isLt
  rw [Fin.ext_iff, ahead_val _ (span_lt head tail), span_val]
  split <;> split <;> omega

/-- No slot that is in use is the one to be written next. -/
theorem ahead_ne {head tail : Fin n} (within : distance < span head tail) :
    ahead head distance ≠ tail := by
  have first := head.isLt
  have last := tail.isLt
  have short := span_lt head tail
  rw [Ne, Fin.ext_iff, ahead_val _ (by omega)]
  rw [span_val] at within
  split at within <;> split <;> omega

variable (read : Fin n → α) {head tail : Fin n}

@[simp] theorem contents_length (head tail : Fin n) :
    (contents read head tail).length = span head tail := by
  rw [contents, length_map, length_range]

theorem contents_eq_nil : contents read head tail = [] ↔ head = tail := by
  rw [← length_eq_zero_iff, contents_length, span_eq_zero]

theorem contents_full : next tail = head ↔ (contents read head tail).length + 1 = n := by
  rw [contents_length, span_full]

/-- A write at the write cursor is outside of the queue. -/
theorem contents_write (value : α) :
    contents (Function.update read tail value) head tail = contents read head tail := by
  apply map_congr_left
  intro distance within
  exact Function.update_of_ne (ahead_ne (mem_range.mp within)) _ _

/-- A value written at the write cursor is the last of the queue. -/
theorem contents_push (room : next tail ≠ head) (value : α) :
    contents (Function.update read tail value) head (next tail) =
      contents read head tail ++ [value] := by
  have kept := @contents_write α n read head tail value
  rw [contents] at kept
  rw [contents, span_next room, range_succ, map_append, map_singleton, ahead_span,
    Function.update_self, kept]

/-- The value at the read cursor is the first of the queue. -/
theorem contents_pop (some : head ≠ tail) :
    contents read head tail = read head :: contents read (next head) tail := by
  rw [contents, span_advance some, range_succ_eq_map, map_cons, ahead_zero, map_map]
  congr 1
  apply map_congr_left
  intro distance _
  exact congrArg read (ahead_next head distance).symm

theorem next_injective {slot other : Fin n} (same : next slot = next other) : slot = other := by
  have first := slot.isLt
  have second := other.isLt
  rw [Fin.ext_iff, next_val, next_val] at same
  apply Fin.ext
  split at same <;> split at same <;> omega

/-- No slot ahead of the read cursor that is in use is the one just passed. -/
theorem ahead_next_ne (some : head ≠ tail) (within : distance < span (next head) tail) :
    ahead (next head) distance ≠ head := by
  have bounded := head.isLt
  have short := span_lt head tail
  rw [span_advance some] at short
  rw [ahead_next, Ne, Fin.ext_iff, ahead_val _ (by omega)]
  split <;> omega

/-- A write at the slot just read is outside of the rest of the queue. -/
theorem contents_passed (some : head ≠ tail) (value : α) :
    contents (Function.update read head value) (next head) tail =
      contents read (next head) tail := by
  apply map_congr_left
  intro distance within
  exact Function.update_of_ne (ahead_next_ne some (mem_range.mp within)) _ _

/-- A value that is already in place joins the queue when the write cursor moves on. -/
theorem contents_publish (room : next tail ≠ head) :
    contents read head (next tail) = contents read head tail ++ [read tail] := by
  have pushed := contents_push read room (read tail)
  rwa [Function.update_eq_self] at pushed

end CircularBuffer
