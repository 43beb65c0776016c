import Qsl.Machine
import Qsl.SlotPool
import Qsl.Types
import Mathlib.Data.List.GetD
import Mathlib.Data.UInt

/- The fixed-capacity pools, with pointers as 64-bit addresses. -/
namespace Qsl

open List

variable {slot : Nat}

/-- Where a pool keeps its objects: the address of the storage, an object's size and its
alignment. The storage is aligned, a size is a multiple of the alignment, and the end of the
storage is an address too. -/
structure PoolLayout where
  capacity : Nat
  base : UInt64
  width : UInt64
  alignment : UInt64
  inhabited : 1 ≤ capacity
  sized : 0 < width.toNat
  stride : alignment.toNat ∣ width.toNat
  aligned : alignment.toNat ∣ base.toNat
  somewhere : 0 < base.toNat
  bounded : base.toNat + capacity * width.toNat < 2 ^ 64

namespace PoolLayout

variable (layout : PoolLayout)

def slotStorage (slot : Nat) : UInt64 := layout.base + UInt64.ofNat slot * layout.width

/-- The slot that a pointer is the address of, if it is one. -/
def slotIndex (object : UInt64) : Option Nat :=
  if object = 0 then none
  else if object < layout.base ∨
      layout.base + UInt64.ofNat layout.capacity * layout.width ≤ object then none
  else
    let offset := object - layout.base
    if offset % layout.width ≠ 0 ∨ object % layout.alignment ≠ 0 then none
    else
      let slot := (offset / layout.width).toNat
      if slot < layout.capacity then some slot else none

/-- No address within the storage wraps around. -/
theorem slotStorage_toNat (upTo : slot ≤ layout.capacity) :
    (layout.slotStorage slot).toNat = layout.base.toNat + slot * layout.width.toNat := by
  have room := layout.bounded
  have scaled : slot * layout.width.toNat ≤ layout.capacity * layout.width.toNat :=
    Nat.mul_le_mul_right _ upTo
  have counted : layout.capacity * 1 ≤ layout.capacity * layout.width.toNat :=
    Nat.mul_le_mul_left _ layout.sized
  have small : slot % 2 ^ 64 = slot := Nat.mod_eq_of_lt (by omega)
  rw [slotStorage, UInt64.toNat_add, UInt64.toNat_mul, UInt64.toNat_ofNat', small,
    Nat.mod_eq_of_lt (by omega : slot * layout.width.toNat < 2 ^ 64), Nat.mod_eq_of_lt (by omega)]

theorem slotStorage_ne_null (inside : slot < layout.capacity) : layout.slotStorage slot ≠ 0 := by
  intro null
  have address := layout.slotStorage_toNat (Nat.le_of_lt inside)
  have start := layout.somewhere
  rw [null, UInt64.toNat_zero] at address
  omega

theorem slotStorage_inj {slot other : Nat} (inside : slot < layout.capacity)
    (inside' : other < layout.capacity)
    (same : layout.slotStorage slot = layout.slotStorage other) : slot = other := by
  have first := layout.slotStorage_toNat (Nat.le_of_lt inside)
  have second := layout.slotStorage_toNat (Nat.le_of_lt inside')
  rw [same, second] at first
  exact Nat.eq_of_mul_eq_mul_right layout.sized (Nat.add_left_cancel first).symm

/-- The address of a slot lies within the storage, at its offset. -/
theorem slotStorage_offset (inside : slot < layout.capacity) :
    layout.base ≤ layout.slotStorage slot ∧
      ¬ layout.base + UInt64.ofNat layout.capacity * layout.width ≤ layout.slotStorage slot ∧
      (layout.slotStorage slot - layout.base).toNat = slot * layout.width.toNat := by
  have address := layout.slotStorage_toNat (Nat.le_of_lt inside)
  have finish := layout.slotStorage_toNat (Nat.le_refl layout.capacity)
  have below : slot * layout.width.toNat < layout.capacity * layout.width.toNat :=
    Nat.mul_lt_mul_of_pos_right inside layout.sized
  have lower : layout.base ≤ layout.slotStorage slot := by
    rw [UInt64.le_iff_toNat_le, address]
    omega
  refine ⟨lower, ?_, ?_⟩
  · rw [slotStorage] at finish
    rw [UInt64.le_iff_toNat_le, finish, address]
    omega
  · rw [UInt64.toNat_sub_of_le _ _ lower, address]
    omega

/-- It is a whole number of slots away from the base, and aligned. -/
theorem slotStorage_exact (inside : slot < layout.capacity) :
    (layout.slotStorage slot - layout.base) % layout.width = 0 ∧
      layout.slotStorage slot % layout.alignment = 0 := by
  obtain ⟨-, -, offset⟩ := layout.slotStorage_offset inside
  constructor
  · apply UInt64.toNat_inj.mp
    rw [UInt64.toNat_mod, offset, Nat.mul_mod_left]
    rfl
  · apply UInt64.toNat_inj.mp
    rw [UInt64.toNat_mod, layout.slotStorage_toNat (Nat.le_of_lt inside)]
    exact Nat.mod_eq_zero_of_dvd
      (Nat.dvd_add layout.aligned (Nat.dvd_mul_left_of_dvd layout.stride slot))

theorem slotIndex_slotStorage (inside : slot < layout.capacity) :
    layout.slotIndex (layout.slotStorage slot) = some slot := by
  obtain ⟨lower, upper, offset⟩ := layout.slotStorage_offset inside
  obtain ⟨whole, aligned⟩ := layout.slotStorage_exact inside
  have place : ((layout.slotStorage slot - layout.base) / layout.width).toNat = slot := by
    rw [UInt64.toNat_div, offset, Nat.mul_div_cancel _ layout.sized]
  simp only [slotIndex, if_neg (layout.slotStorage_ne_null inside)]
  rw [if_neg (not_or.mpr ⟨UInt64.not_lt.mpr lower, upper⟩),
    if_neg (not_or.mpr ⟨not_not.mpr whole, not_not.mpr aligned⟩), place, if_pos inside]

/-- The address arithmetic picks out exactly the slots' addresses. -/
theorem slotIndex_iff {object : UInt64} :
    layout.slotIndex object = some slot ↔
      slot < layout.capacity ∧ object = layout.slotStorage slot := by
  constructor
  · intro found
    simp only [slotIndex] at found
    split at found
    · cases found
    split at found
    · cases found
    rename_i between
    split at found
    · cases found
    rename_i exactly
    split at found
    · rename_i inside
      cases found
      refine ⟨inside, ?_⟩
      rw [not_or, UInt64.not_lt] at between
      rw [not_or, not_not, not_not] at exactly
      have offset := UInt64.toNat_sub_of_le _ _ between.1
      have whole := congrArg UInt64.toNat exactly.1
      rw [UInt64.toNat_mod, UInt64.toNat_zero] at whole
      have later := UInt64.le_iff_toNat_le.mp between.1
      apply UInt64.toNat_inj.mp
      rw [layout.slotStorage_toNat (Nat.le_of_lt inside), UInt64.toNat_div,
        Nat.div_mul_cancel (Nat.dvd_of_mod_eq_zero whole), offset]
      omega
    · cases found
  · rintro ⟨inside, rfl⟩
    exact layout.slotIndex_slotStorage inside

end PoolLayout

/-- `storage` holds the constructed objects. The arrays have `capacity` entries. -/
structure RawPool (α : Type) where
  storage : List (Option α)
  live : List Bool
  freeIndices : List Nat
  freeCount : Nat
  deriving DecidableEq, Repr

namespace RawPool

variable {α : Type} (layout : PoolLayout)

def isLive (pool : RawPool α) (slot : Nat) : Bool := pool.live.getD slot false

def available (pool : RawPool α) : Nat := pool.freeCount

def inUse (pool : RawPool α) : Nat := layout.capacity - pool.freeCount

def resetFreeList (pool : RawPool α) : RawPool α :=
  { pool with
    freeCount := layout.capacity
    freeIndices := (List.range layout.capacity).map (fun i => layout.capacity - 1 - i) }

def new : RawPool α :=
  resetFreeList layout ⟨.replicate layout.capacity none, .replicate layout.capacity false,
    .replicate layout.capacity 0, 0⟩

/-- Answers the new object's address, or null when no slot is free. -/
def tryAcquire (pool : RawPool α) (object : α) : RawPool α × UInt64 :=
  if pool.freeCount = 0 then (pool, 0)
  else
    let slot := pool.freeIndices.getD (pool.freeCount - 1) 0
    ({ pool with
        storage := pool.storage.set slot (some object)
        freeCount := pool.freeCount - 1
        live := pool.live.set slot true }, layout.slotStorage slot)

def release (pool : RawPool α) (object : UInt64) : RawPool α × Bool :=
  match layout.slotIndex object with
  | none => (pool, false)
  | some slot =>
    if !pool.isLive slot then (pool, false)
    else
      ({ pool with
          storage := pool.storage.set slot none
          live := pool.live.set slot false
          freeIndices := pool.freeIndices.set pool.freeCount slot
          freeCount := pool.freeCount + 1 }, true)

def destroyStep (pool : RawPool α) (slot : Nat) : RawPool α :=
  if pool.isLive slot then
    { pool with storage := pool.storage.set slot none, live := pool.live.set slot false }
  else pool

def destroyLive (pool : RawPool α) : RawPool α :=
  (List.range layout.capacity).foldl destroyStep pool

/-- Only `OrderPool` has it. -/
def reset (pool : RawPool α) : RawPool α := resetFreeList layout (destroyLive layout pool)

end RawPool

/- `OrderPool` is the same pool over orders, with `owns` and `reset` beside it. -/
namespace OrderPool

variable (layout : PoolLayout)

def tryAcquire (pool : RawPool Order) (id : OrderId) (side : Side) (price : Price)
    (quantity : Quantity) : RawPool Order × UInt64 :=
  RawPool.tryAcquire layout pool ⟨id, side, price, quantity⟩

def release (pool : RawPool Order) (order : UInt64) : RawPool Order × Bool :=
  RawPool.release layout pool order

def owns (order : UInt64) : Bool := (layout.slotIndex order).isSome

def reset (pool : RawPool Order) : RawPool Order := RawPool.reset layout pool

end OrderPool

namespace RawPool

variable {α : Type} {layout : PoolLayout} {pool : RawPool α}

/-- The first `free_count_` entries of `free_indices_`. -/
def free (pool : RawPool α) : List Nat := pool.freeIndices.take pool.freeCount

/-- The free entries are the slots that are not live, and those that are hold an object. -/
structure Valid (layout : PoolLayout) (pool : RawPool α) : Prop where
  storage : pool.storage.length = layout.capacity
  live : pool.live.length = layout.capacity
  indices : pool.freeIndices.length = layout.capacity
  count : pool.freeCount ≤ layout.capacity
  free : pool.free.Perm ((List.range layout.capacity).filter (fun slot => !pool.isLive slot))
  held : ∀ slot, (pool.storage.getD slot none).isSome = pool.isLive slot

theorem getD_set {β : Type} {list : List β} (inside : slot < list.length) (value default : β)
    (other : Nat) :
    (list.set slot value).getD other default =
      if other = slot then value else list.getD other default := by
  rw [getD_eq_getElem?_getD, getD_eq_getElem?_getD, getElem?_set]
  by_cases same : slot = other
  · rw [if_pos same, if_pos (same ▸ inside), if_pos same.symm]
    rfl
  · rw [if_neg same, if_neg (fun equal => same equal.symm)]

/-- Taking one slot out of a selection of slots. -/
theorem filter_without {list : List Nat} (distinct : list.Nodup) (listed : slot ∈ list)
    (picked fewer : Nat → Bool) (there : picked slot = true)
    (rest : ∀ other, fewer other = (picked other && other != slot)) :
    (list.filter picked).Perm (slot :: list.filter fewer) := by
  have erased : (list.filter picked).erase slot = list.filter fewer := by
    rw [List.Nodup.erase_eq_filter (distinct.filter picked), filter_filter]
    apply filter_congr
    intro other _
    rw [rest, Bool.and_comm]
  rw [← erased]
  exact perm_cons_erase (mem_filter.mpr ⟨listed, there⟩)

section Free

variable (valid : pool.Valid layout)

include valid

theorem Valid.mem_free : slot ∈ pool.free ↔ slot < layout.capacity ∧ pool.isLive slot = false := by
  rw [valid.free.mem_iff, mem_filter, mem_range, Bool.not_eq_true']

theorem Valid.free_nodup : pool.free.Nodup :=
  valid.free.nodup_iff.mpr (nodup_range.filter _)

theorem Valid.free_length : pool.free.length = pool.freeCount := by
  rw [RawPool.free, length_take, valid.indices]
  exact Nat.min_eq_left valid.count

/-- The number in use is the number of live slots. -/
theorem Valid.inUse_eq :
    inUse layout pool = ((List.range layout.capacity).filter pool.isLive).length := by
  have split := length_eq_length_filter_add pool.isLive (l := List.range layout.capacity)
  have free := valid.free.length_eq
  rw [valid.free_length] at free
  rw [length_range] at split
  rw [inUse]
  omega

theorem Valid.isLive_lt (alive : pool.isLive slot = true) : slot < layout.capacity := by
  by_contra outside
  rw [isLive, getD_eq_default _ _ (by rw [valid.live]; omega)] at alive
  cases alive

/-- The entry that the next acquisition takes. -/
theorem Valid.free_top (some : pool.freeCount ≠ 0) :
    pool.free = pool.freeIndices.take (pool.freeCount - 1) ++
      [pool.freeIndices.getD (pool.freeCount - 1) 0] := by
  have count := valid.count
  have inside : pool.freeCount - 1 < pool.freeIndices.length := by
    rw [valid.indices]
    omega
  have next := take_succ_eq_append_getElem inside
  have total : pool.freeCount - 1 + 1 = pool.freeCount := by omega
  rw [total] at next
  rw [RawPool.free, next, getD_eq_getElem _ _ inside]

theorem Valid.top_free (some : pool.freeCount ≠ 0) :
    pool.freeIndices.getD (pool.freeCount - 1) 0 < layout.capacity ∧
      pool.isLive (pool.freeIndices.getD (pool.freeCount - 1) 0) = false := by
  apply valid.mem_free.mp
  rw [valid.free_top some]
  exact mem_append_right _ mem_cons_self

end Free

theorem reset_free (pool : RawPool α) :
    (resetFreeList layout pool).free = (List.range layout.capacity).reverse := by
  rw [free, resetFreeList, take_of_length_le (by simp)]
  apply ext_getElem
  · simp
  · intro i inside inside'
    simp [getElem_reverse]

/-- With nothing live, a fresh free list makes the pool valid. -/
theorem valid_resetFreeList (storage : pool.storage.length = layout.capacity)
    (live : pool.live.length = layout.capacity) (dead : ∀ slot, pool.isLive slot = false)
    (none : ∀ slot, pool.storage.getD slot none = none) :
    (resetFreeList layout pool).Valid layout where
  storage := storage
  live := live
  indices := by simp [resetFreeList]
  count := Nat.le_refl _
  free := by
    have all : (List.range layout.capacity).filter
        (fun slot => !(resetFreeList layout pool).isLive slot) = List.range layout.capacity := by
      apply filter_eq_self.mpr
      intro slot _
      exact congrArg not (dead slot)
    rw [reset_free, all]
    exact reverse_perm _
  held := by
    intro slot
    change (pool.storage.getD slot _).isSome = pool.isLive slot
    rw [none, dead]
    rfl

theorem valid_new : (new layout : RawPool α).Valid layout := by
  apply valid_resetFreeList
  · exact length_replicate
  · exact length_replicate
  · intro slot
    rw [isLive, getD_eq_getElem?_getD]
    exact getElem?_getD_replicate_default_eq _ _ _
  · intro slot
    rw [getD_eq_getElem?_getD]
    exact getElem?_getD_replicate_default_eq _ _ _

theorem Valid.tryAcquire (valid : pool.Valid layout) (object : α) :
    (RawPool.tryAcquire layout pool object).1.Valid layout := by
  rw [RawPool.tryAcquire]
  split
  · exact valid
  · rename_i some
    obtain ⟨inside, unused⟩ := valid.top_free some
    have top := valid.free_top some
    have count := valid.count
    generalize pool.freeIndices.getD (pool.freeCount - 1) 0 = slot at inside unused top ⊢
    have marked := getD_set (by rw [valid.live]; exact inside : slot < pool.live.length) true false
    have stored := getD_set (by rw [valid.storage]; exact inside : slot < pool.storage.length)
      (Option.some object) none
    refine ⟨?_, ?_, valid.indices, ?_, ?_, ?_⟩
    · simpa using valid.storage
    · simpa using valid.live
    · exact Nat.le_trans (Nat.sub_le _ _) count
    · have fewer := filter_without nodup_range (mem_range.mpr inside)
        (fun slot => !pool.isLive slot) (fun other => !(pool.live.set slot true).getD other false)
        (by rw [unused]; rfl) (by
          intro other
          rw [marked]
          by_cases same : other = slot
          · simp [same]
          · simp [same, isLive])
      have old := valid.free
      rw [top] at old
      exact ((perm_append_singleton slot _).symm.trans (old.trans fewer)).cons_inv
    · intro other
      change ((pool.storage.set slot _).getD other none).isSome =
        (pool.live.set slot true).getD other false
      rw [marked, stored]
      split
      · rfl
      · exact valid.held other

/-- A pointer to a live slot gives that slot back, any other changes nothing. -/
theorem release_cases (layout : PoolLayout) (pool : RawPool α) (object : UInt64) :
    (∃ slot < layout.capacity, object = layout.slotStorage slot ∧ pool.isLive slot = true ∧
      release layout pool object =
        (⟨pool.storage.set slot none, pool.live.set slot false,
          pool.freeIndices.set pool.freeCount slot, pool.freeCount + 1⟩, true)) ∨
    ((∀ slot < layout.capacity, object = layout.slotStorage slot → pool.isLive slot = false) ∧
      release layout pool object = (pool, false)) := by
  rw [release]
  cases found : layout.slotIndex object with
  | none =>
    refine Or.inr ⟨?_, rfl⟩
    rintro slot inside rfl
    rw [layout.slotIndex_slotStorage inside] at found
    cases found
  | some slot =>
    obtain ⟨inside, rfl⟩ := layout.slotIndex_iff.mp found
    cases alive : pool.isLive slot with
    | true => exact Or.inl ⟨slot, inside, rfl, alive, by simp [alive]⟩
    | false =>
      refine Or.inr ⟨?_, by simp [alive]⟩
      intro other inside' same
      rw [← layout.slotStorage_inj inside inside' same]
      exact alive

theorem Valid.release (valid : pool.Valid layout) (object : UInt64) :
    (RawPool.release layout pool object).1.Valid layout := by
  rcases release_cases layout pool object with ⟨slot, inside, _, alive, freed⟩ | ⟨_, refused⟩
  · rw [freed]
    have marked := getD_set (by rw [valid.live]; exact inside : slot < pool.live.length) false false
    have stored := getD_set (by rw [valid.storage]; exact inside : slot < pool.storage.length)
      none none
    have more := filter_without nodup_range (mem_range.mpr inside)
      (fun other => !(pool.live.set slot false).getD other false) (fun slot => !pool.isLive slot)
      (by rw [marked, if_pos rfl]; rfl) (by
        intro other
        rw [marked]
        by_cases same : other = slot
        · simp [same, alive]
        · simp [same, isLive, bne_iff_ne.mpr same])
    have whole := (more.trans (valid.free.symm.cons slot)).length_eq
    have bound := length_filter_le
      (fun other => !(pool.live.set slot false).getD other false) (List.range layout.capacity)
    rw [length_cons, valid.free_length] at whole
    rw [whole, length_range] at bound
    refine ⟨?_, ?_, ?_, bound, ?_, ?_⟩
    · simpa using valid.storage
    · simpa using valid.live
    · simpa using valid.indices
    · -- the freed slot is the new top of the free entries
      have top : (pool.freeIndices.set pool.freeCount slot).take (pool.freeCount + 1) =
          pool.free ++ [slot] := by
        have room : pool.freeCount < (pool.freeIndices.set pool.freeCount slot).length := by
          rw [length_set, valid.indices]
          exact bound
        rw [take_succ_eq_append_getElem room, take_set_of_le (Nat.le_refl _),
          getElem_set_self, RawPool.free]
      change ((pool.freeIndices.set pool.freeCount slot).take (pool.freeCount + 1)).Perm _
      rw [top]
      exact (perm_append_singleton slot _).trans ((valid.free.cons slot).trans more.symm)
    · intro other
      change ((pool.storage.set slot none).getD other none).isSome =
        (pool.live.set slot false).getD other false
      rw [marked, stored]
      split
      · rfl
      · exact valid.held other
  · rw [refused]
    exact valid

/-- Destroying one slot ends its object, if there was one, and no other. -/
theorem destroyStep_spec (pool : RawPool α) (first : Nat)
    (stored : pool.storage.length = pool.live.length)
    (held : ∀ slot, (pool.storage.getD slot none).isSome = pool.isLive slot) :
    let after := destroyStep pool first
    after.storage.length = pool.storage.length ∧ after.live.length = pool.live.length ∧
      (∀ slot, after.isLive slot = (pool.isLive slot && decide (slot ≠ first))) ∧
      ∀ slot, (after.storage.getD slot none).isSome = after.isLive slot := by
  cases alive : pool.isLive first with
  | true =>
    have inside : first < pool.live.length := by
      by_contra outside
      rw [isLive, getD_eq_default _ _ (by omega)] at alive
      cases alive
    have marked := getD_set inside false false
    have cleared := getD_set (by rw [stored]; exact inside : first < pool.storage.length)
      (none : Option α) none
    have step : destroyStep pool first = ⟨pool.storage.set first none,
        pool.live.set first false, pool.freeIndices, pool.freeCount⟩ := if_pos alive
    rw [step]
    refine ⟨length_set, length_set, ?_, ?_⟩
    · intro slot
      change (pool.live.set first false).getD slot false = _
      rw [marked]
      by_cases same : slot = first
      · simp [same]
      · simp [same, isLive]
    · intro slot
      change ((pool.storage.set first none).getD slot none).isSome =
        (pool.live.set first false).getD slot false
      rw [marked, cleared]
      split
      · rfl
      · exact held slot
  | false =>
    have step : destroyStep pool first = pool :=
      if_neg (by rw [alive]; exact Bool.false_ne_true)
    rw [step]
    refine ⟨rfl, rfl, ?_, held⟩
    intro slot
    by_cases same : slot = first
    · simp [same, alive]
    · simp [same]

/-- Destroying along a list of slots leaves the live ones that are not on it. -/
theorem destroy_fold (slots : List Nat) (pool : RawPool α)
    (stored : pool.storage.length = pool.live.length)
    (held : ∀ slot, (pool.storage.getD slot none).isSome = pool.isLive slot) :
    let after := slots.foldl destroyStep pool
    after.storage.length = pool.storage.length ∧ after.live.length = pool.live.length ∧
      (∀ slot, after.isLive slot = (pool.isLive slot && !slots.contains slot)) ∧
      ∀ slot, (after.storage.getD slot none).isSome = after.isLive slot := by
  induction slots generalizing pool with
  | nil => exact ⟨rfl, rfl, fun slot => by simp, held⟩
  | cons first slots ih =>
    obtain ⟨storage, live, left, kept⟩ := destroyStep_spec pool first stored held
    obtain ⟨storage', live', left', kept'⟩ :=
      ih (destroyStep pool first) (by rw [storage, live, stored]) kept
    refine ⟨storage'.trans storage, live'.trans live, ?_, kept'⟩
    intro slot
    refine (left' slot).trans ?_
    rw [left slot]
    by_cases same : slot = first
    · simp [same]
    · simp [same]

theorem Valid.reset (valid : pool.Valid layout) : (RawPool.reset layout pool).Valid layout := by
  obtain ⟨storage, live, left, kept⟩ := destroy_fold (List.range layout.capacity) pool
    (valid.storage.trans valid.live.symm) valid.held
  have dead : ∀ slot, (destroyLive layout pool).isLive slot = false := by
    intro slot
    have outcome := left slot
    cases alive : pool.isLive slot with
    | true =>
      have listed : (List.range layout.capacity).contains slot = true :=
        contains_iff_mem.mpr (mem_range.mpr (valid.isLive_lt alive))
      rw [listed, Bool.not_true, Bool.and_false] at outcome
      exact outcome
    | false =>
      rw [alive, Bool.false_and] at outcome
      exact outcome
  apply valid_resetFreeList (storage.trans valid.storage) (live.trans valid.live) dead
  intro slot
  have empty := (kept slot).trans (dead slot)
  exact Option.isNone_iff_eq_none.mp (Option.isSome_eq_false_iff.mp empty)

/- Through the slots' numbers, the pool is the one the intrusive books are modelled over. -/
section Refinement

/-- The pool with slot numbers in place of addresses. -/
def view (layout : PoolLayout) (pool : RawPool α) : SlotPool α :=
  ⟨layout.capacity, fun slot => pool.storage.getD slot none, pool.free.reverse⟩

theorem view_new : view layout (new layout : RawPool α) = SlotPool.new layout.capacity := by
  have none : ∀ slot, (List.replicate layout.capacity (none : Option α)).getD slot none = none := by
    intro slot
    rw [getD_eq_getElem?_getD]
    exact getElem?_getD_replicate_default_eq _ _ _
  rw [view, new, reset_free, reverse_reverse, SlotPool.new]
  congr 1
  funext slot
  exact none slot

theorem Valid.view_uses (valid : pool.Valid layout) :
    (view layout pool).Uses ((List.range layout.capacity).filter pool.isLive) := by
  have free := (reverse_perm pool.free).trans valid.free
  have split := filter_append_perm pool.isLive (List.range layout.capacity)
  exact (free.append_right _).trans (perm_append_comm.trans split)

theorem Valid.view_tryAcquire (valid : pool.Valid layout) (object : α) :
    (view layout pool).tryAcquire object =
      (view layout (RawPool.tryAcquire layout pool object).1,
        layout.slotIndex (RawPool.tryAcquire layout pool object).2) := by
  by_cases full : pool.freeCount = 0
  · have empty : pool.free = [] := by rw [RawPool.free, full, take_zero]
    rw [RawPool.tryAcquire, if_pos full, SlotPool.tryAcquire, view, empty]
    rfl
  · obtain ⟨inside, _⟩ := valid.top_free full
    have stack : (view layout pool).free =
        pool.freeIndices.getD (pool.freeCount - 1) 0 ::
          (pool.freeIndices.take (pool.freeCount - 1)).reverse := by
      change pool.free.reverse = _
      rw [valid.free_top full, reverse_append]
      rfl
    have stored := getD_set (by rw [valid.storage]; exact inside) (some object) none
    rw [RawPool.tryAcquire, if_neg full, SlotPool.tryAcquire, stack]
    simp only [layout.slotIndex_slotStorage inside]
    congr 2
    funext slot
    exact (Function.update_apply _ _ _ _).trans (stored slot).symm

theorem Valid.view_release (valid : pool.Valid layout) (inside : slot < layout.capacity) :
    (view layout pool).release slot =
      (view layout (RawPool.release layout pool (layout.slotStorage slot)).1,
        (RawPool.release layout pool (layout.slotStorage slot)).2) := by
  have held := valid.held slot
  rw [SlotPool.release]
  rcases release_cases layout pool (layout.slotStorage slot) with
    ⟨other, inside', same, alive, freed⟩ | ⟨dead, refused⟩
  · rw [← layout.slotStorage_inj inside inside' same] at alive freed
    rw [freed, if_pos ⟨inside, held.trans alive⟩]
    have kept := valid.release (layout.slotStorage slot)
    rw [freed] at kept
    have stored := getD_set (by rw [valid.storage]; exact inside) (none : Option α) none
    have top := kept.free_top (Nat.succ_ne_zero _)
    have last : (pool.freeIndices.set pool.freeCount slot).getD pool.freeCount 0 = slot := by
      have room := kept.count
      exact (getD_set (by rw [valid.indices]; exact room) slot 0 pool.freeCount).trans (if_pos rfl)
    have stack : (view layout ⟨pool.storage.set slot none, pool.live.set slot false,
        pool.freeIndices.set pool.freeCount slot, pool.freeCount + 1⟩).free =
          slot :: pool.free.reverse := by
      change (RawPool.free ⟨pool.storage.set slot none, pool.live.set slot false,
        pool.freeIndices.set pool.freeCount slot, pool.freeCount + 1⟩).reverse = _
      rw [top]
      simp only [Nat.add_sub_cancel]
      rw [last, take_set_of_le (Nat.le_refl _), reverse_append]
      rfl
    refine Prod.ext ?_ rfl
    rw [SlotPool.mk.injEq]
    refine ⟨rfl, ?_, stack.symm⟩
    funext other
    exact (Function.update_apply _ _ _ _).trans (stored other).symm
  · rw [refused, if_neg]
    rintro ⟨_, alive⟩
    rw [show (view layout pool).slots slot = pool.storage.getD slot none from rfl, held,
      dead slot inside rfl] at alive
    cases alive

end Refinement

/-- The calls on a pool; `release` takes any address. -/
inductive PoolCall (α : Type) where
  | tryAcquire (object : α)
  | release (object : UInt64)
  | reset
  deriving DecidableEq, Repr

inductive PoolReply where
  | acquired (object : UInt64)
  | released (freed : Bool)
  | done
  deriving DecidableEq, Repr

def answer (layout : PoolLayout) (pool : RawPool α) : PoolCall α → RawPool α × PoolReply
  | .tryAcquire object =>
    let (after, address) := tryAcquire layout pool object
    (after, .acquired address)
  | .release object =>
    let (after, freed) := release layout pool object
    (after, .released freed)
  | .reset => (reset layout pool, .done)

theorem Valid.answer (valid : pool.Valid layout) (call : PoolCall α) :
    (RawPool.answer layout pool call).1.Valid layout := by
  cases call with
  | tryAcquire object => exact valid.tryAcquire object
  | release object => exact valid.release object
  | reset => exact valid.reset

/-- What an acquisition answers, by whether a slot is free. -/
theorem Valid.acquires (valid : pool.Valid layout) (object : α) :
    (pool.freeCount = 0 ∧ (∀ slot < layout.capacity, pool.isLive slot = true) ∧
      RawPool.tryAcquire layout pool object = (pool, 0)) ∨
    ∃ slot < layout.capacity, pool.isLive slot = false ∧
      (RawPool.tryAcquire layout pool object).2 = layout.slotStorage slot ∧
      ∀ other, (RawPool.tryAcquire layout pool object).1.isLive other =
        if other = slot then true else pool.isLive other := by
  by_cases full : pool.freeCount = 0
  · refine Or.inl ⟨full, ?_, by rw [RawPool.tryAcquire, if_pos full]⟩
    intro slot inside
    cases alive : pool.isLive slot with
    | true => rfl
    | false =>
      have listed := valid.mem_free.mpr ⟨inside, alive⟩
      rw [RawPool.free, full, take_zero] at listed
      cases listed
  · obtain ⟨inside, unused⟩ := valid.top_free full
    refine Or.inr ⟨_, inside, unused, ?_, ?_⟩
    · rw [RawPool.tryAcquire, if_neg full]
    · intro other
      rw [RawPool.tryAcquire, if_neg full]
      exact getD_set (by rw [valid.live]; exact inside) true false other

end RawPool

/-- In every state that calls with arbitrary addresses lead to: the free entries are the slots
that are not live, each once; acquiring answers null iff all slots are live, else a slot that was
not; a release takes effect iff its address is that of a live slot; and `in_use` counts the live
slots. -/
theorem pool_accounts {α : Type} (layout : PoolLayout) (calls : List (RawPool.PoolCall α)) :
    let pool := (Machine.run (RawPool.answer layout) (RawPool.new layout) calls).1
    pool.free.Nodup ∧
    (∀ slot, slot ∈ pool.free ↔ slot < layout.capacity ∧ pool.isLive slot = false) ∧
    (∀ object,
      let acquired := RawPool.tryAcquire layout pool object
      (acquired.2 = 0 ↔ ∀ slot < layout.capacity, pool.isLive slot = true) ∧
      (acquired.2 = 0 → acquired.1 = pool) ∧
      (acquired.2 ≠ 0 → ∃ slot < layout.capacity, pool.isLive slot = false ∧
        acquired.2 = layout.slotStorage slot ∧
        ∀ other, acquired.1.isLive other = if other = slot then true else pool.isLive other)) ∧
    (∀ object,
      let released := RawPool.release layout pool object
      (released.2 = true ↔
        ∃ slot < layout.capacity, object = layout.slotStorage slot ∧ pool.isLive slot = true) ∧
      (released.2 = true → ∃ slot < layout.capacity, object = layout.slotStorage slot ∧
        pool.isLive slot = true ∧
        ∀ other, released.1.isLive other = if other = slot then false else pool.isLive other) ∧
      (released.2 = false → released.1 = pool)) ∧
    RawPool.inUse layout pool = ((List.range layout.capacity).filter pool.isLive).length := by
  intro pool
  have valid : pool.Valid layout :=
    Machine.run_invariant (RawPool.answer layout) (RawPool.Valid layout)
      (fun _ call valid => valid.answer call) RawPool.valid_new calls
  refine ⟨valid.free_nodup, fun slot => valid.mem_free, ?_, ?_, valid.inUse_eq⟩
  · intro object acquired
    rcases valid.acquires object with ⟨_, all, refused⟩ | ⟨slot, inside, unused, address, marked⟩
    · have same : acquired = (pool, 0) := refused
      rw [same]
      exact ⟨iff_of_true rfl all, fun _ => rfl, fun found => absurd rfl found⟩
    · have found : acquired.2 ≠ 0 := by
        rw [show acquired.2 = layout.slotStorage slot from address]
        exact layout.slotStorage_ne_null inside
      refine ⟨iff_of_false found ?_, fun null => absurd null found, ?_⟩
      · intro all
        rw [all slot inside] at unused
        cases unused
      · exact fun _ => ⟨slot, inside, unused, address, marked⟩
  · intro object released
    rcases RawPool.release_cases layout pool object with
      ⟨slot, inside, address, alive, freed⟩ | ⟨dead, refused⟩
    · have same : released = _ := freed
      rw [same]
      refine ⟨iff_of_true rfl ⟨slot, inside, address, alive⟩, ?_, ?_⟩
      · exact fun _ => ⟨slot, inside, address, alive,
          RawPool.getD_set (by rw [valid.live]; exact inside) false false⟩
      · intro refused
        cases refused
    · have same : released = (pool, false) := refused
      rw [same]
      refine ⟨iff_of_false Bool.false_ne_true ?_, ?_, fun _ => rfl⟩
      · rintro ⟨slot, inside, address, alive⟩
        rw [dead slot inside address] at alive
        cases alive
      · intro freed
        cases freed

/-- Two objects of 32 bytes from address 4096 on. -/
def pairLayout : PoolLayout :=
  ⟨2, 4096, 32, 8, by decide, by decide, by decide, by decide, by decide, by decide⟩

/-- An interior pointer, a second release and one from before a reset are all refused. -/
example : (Machine.run (RawPool.answer pairLayout) (RawPool.new pairLayout)
    [.tryAcquire 'a', .tryAcquire 'b', .tryAcquire 'c', .release 4104, .release 4128,
      .release 4128, .reset, .release 4096]).2 =
    [.acquired 4096, .acquired 4128, .acquired 0, .released false, .released true,
      .released false, .done, .released false] := by decide

end Qsl
