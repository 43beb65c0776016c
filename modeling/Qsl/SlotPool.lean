import Mathlib.Data.List.Perm.Basic
import Mathlib.Data.List.Range
import Mathlib.Logic.Function.Basic

/-- A pool of `capacity` slots. `slots` holds the live objects, and `free` is the
stack of free slot numbers, its top first. -/
structure SlotPool (α : Type) where
  capacity : Nat
  slots : Nat → Option α
  free : List Nat

namespace SlotPool

open List

variable {α : Type}

def new (capacity : Nat) : SlotPool α := ⟨capacity, fun _ => none, List.range capacity⟩

def available (pool : SlotPool α) : Nat := pool.free.length

def tryAcquire (pool : SlotPool α) (object : α) : SlotPool α × Option Nat :=
  match pool.free with
  | [] => (pool, none)
  | slot :: free =>
    ({ pool with slots := Function.update pool.slots slot (some object), free := free }, some slot)

/-- Giving back a slot that is not live is refused. -/
def release (pool : SlotPool α) (slot : Nat) : SlotPool α × Bool :=
  if slot < pool.capacity ∧ (pool.slots slot).isSome then
    ({ pool with slots := Function.update pool.slots slot none, free := slot :: pool.free }, true)
  else (pool, false)

/-- Change a live object in place. -/
def write (pool : SlotPool α) (slot : Nat) (f : α → α) : SlotPool α :=
  { pool with slots := Function.update pool.slots slot ((pool.slots slot).map f) }

/-- Every slot is on the free stack or in `used`, and in one of them once. -/
def Uses (pool : SlotPool α) (used : List Nat) : Prop :=
  (pool.free ++ used).Perm (List.range pool.capacity)

theorem uses_new (capacity : Nat) : (new capacity : SlotPool α).Uses [] := by
  rw [Uses, new, append_nil]

namespace Uses

variable {pool : SlotPool α} {used : List Nat}

theorem perm {other : List Nat} (uses : pool.Uses used) (same : used.Perm other) :
    pool.Uses other := (same.symm.append_left pool.free).trans uses

/-- No slot is lost: the free ones and the used ones are all of them. -/
theorem available_add (uses : pool.Uses used) :
    pool.available + used.length = pool.capacity := by
  have total := List.Perm.length_eq uses
  rwa [length_append, length_range] at total

theorem nodup (uses : pool.Uses used) : used.Nodup := by
  have whole := (List.Perm.nodup_iff uses).mpr nodup_range
  exact (nodup_append.mp whole).2.1

theorem lt (uses : pool.Uses used) {slot : Nat} (member : slot ∈ used) : slot < pool.capacity :=
  mem_range.mp ((List.Perm.mem_iff uses).mp (mem_append_right _ member))

/-- While a slot is free, acquiring takes one that nothing else uses. -/
theorem acquire (uses : pool.Uses used) (room : pool.available ≠ 0) (object : α) :
    ∃ slot free, pool.tryAcquire object =
        ({ pool with slots := Function.update pool.slots slot (some object), free := free },
          some slot) ∧
      slot ∉ used ∧
      Uses { pool with slots := Function.update pool.slots slot (some object), free := free }
        (slot :: used) := by
  cases shape : pool.free with
  | nil => exact absurd (by rw [available, shape]; rfl) room
  | cons slot free =>
    have whole : (slot :: free ++ used).Perm (List.range pool.capacity) := shape ▸ uses
    have distinct := (List.Perm.nodup_iff whole).mpr nodup_range
    have unused := (nodup_append.mp distinct).2.2 slot mem_cons_self
    refine ⟨slot, free, ?_, fun member => unused slot member rfl, ?_⟩
    · rw [tryAcquire, shape]
    · exact perm_middle.trans whole

/-- Releasing a used slot succeeds and puts it back on the stack. -/
theorem release {slot : Nat} (uses : pool.Uses (slot :: used))
    (live : (pool.slots slot).isSome = true) :
    pool.release slot =
        ({ pool with slots := Function.update pool.slots slot none, free := slot :: pool.free },
          true) ∧
      Uses { pool with slots := Function.update pool.slots slot none, free := slot :: pool.free }
        used := by
  refine ⟨?_, perm_middle.symm.trans uses⟩
  rw [SlotPool.release, if_pos ⟨uses.lt mem_cons_self, live⟩]

theorem write (uses : pool.Uses used) (slot : Nat) (f : α → α) : (pool.write slot f).Uses used :=
  uses

end Uses

end SlotPool
