import Mathlib.Data.List.Nodup
import Mathlib.Data.List.Perm.Subperm

/- The distinct items of a list in the order in which they first appear. -/
namespace FirstSeen

open List

variable {α β : Type} [DecidableEq α] [DecidableEq β] {seen items : List α} {item : α}

def note (seen : List α) (item : α) : List α := if item ∈ seen then seen else seen ++ [item]

/-- What has been seen after some more items. -/
def after (seen items : List α) : List α := items.foldl note seen

@[simp] theorem after_nil (seen : List α) : after seen [] = seen := rfl

@[simp] theorem after_cons (seen items : List α) (item : α) :
    after seen (item :: items) = after (note seen item) items := rfl

theorem mem_note {other : α} : other ∈ note seen item ↔ other ∈ seen ∨ other = item := by
  unfold note
  split
  · rename_i old
    constructor
    · exact Or.inl
    · rintro (member | rfl)
      · exact member
      · exact old
  · rw [mem_append, mem_singleton]

theorem note_nodup (unique : seen.Nodup) (item : α) : (note seen item).Nodup := by
  unfold note
  split
  · exact unique
  · rename_i fresh
    rw [← concat_eq_append]
    exact unique.concat fresh

theorem note_extends (seen : List α) (item : α) : ∃ more, note seen item = seen ++ more := by
  unfold note
  split
  · exact ⟨[], (append_nil seen).symm⟩
  · exact ⟨[item], rfl⟩

theorem after_nodup (unique : seen.Nodup) (items : List α) : (after seen items).Nodup := by
  induction items generalizing seen with
  | nil => exact unique
  | cons item items ih => exact ih (note_nodup unique item)

theorem mem_after {other : α} : other ∈ after seen items ↔ other ∈ seen ∨ other ∈ items := by
  induction items generalizing seen with
  | nil => simp
  | cons item items ih => rw [after_cons, ih, mem_note, mem_cons, or_assoc]

theorem after_extends (seen items : List α) : ∃ more, after seen items = seen ++ more := by
  induction items generalizing seen with
  | nil => exact ⟨[], (append_nil seen).symm⟩
  | cons item items ih =>
    obtain ⟨some, noted⟩ := note_extends seen item
    obtain ⟨more, whole⟩ := ih (note seen item)
    exact ⟨some ++ more, by rw [after_cons, whole, noted, append_assoc]⟩

/-- The position of what has been seen does not change. -/
theorem idxOf_after (items : List α) (old : item ∈ seen) :
    (after seen items).idxOf item = seen.idxOf item := by
  obtain ⟨more, whole⟩ := after_extends seen items
  rw [whole, idxOf_append_of_mem old]

/-- Items that a renaming keeps apart are first seen in the same order under their new names. -/
theorem after_map {f : α → β}
    (apart : ∀ a ∈ seen ++ items, ∀ b ∈ seen ++ items, f a = f b → a = b) :
    after (seen.map f) (items.map f) = (after seen items).map f := by
  induction items generalizing seen with
  | nil => rfl
  | cons item items ih =>
    have noted : note (seen.map f) (f item) = (note seen item).map f := by
      unfold note
      by_cases old : item ∈ seen
      · rw [if_pos old, if_pos (mem_map_of_mem old)]
      · have fresh : f item ∉ seen.map f := by
          rw [mem_map]
          rintro ⟨other, member, same⟩
          have equal := apart other (by simp [member]) item (by simp) same
          exact old (equal ▸ member)
        rw [if_neg old, if_neg fresh, map_append, map_singleton]
    rw [map_cons, after_cons, after_cons, noted]
    apply ih
    intro a inA b inB same
    simp only [mem_append, mem_note] at inA inB
    exact apart a (by simp; tauto) b (by simp; tauto) same

theorem idxOf_map {f : α → β} (apart : ∀ a ∈ items, ∀ b ∈ items, f a = f b → a = b)
    (unique : items.Nodup) (member : item ∈ items) :
    (items.map f).idxOf (f item) = items.idxOf item := by
  have distinct : (items.map f).Nodup := unique.map_on apart
  have place : items.idxOf item < (items.map f).length := by
    rw [length_map]
    exact idxOf_lt_length_iff.mpr member
  have found := distinct.idxOf_getElem (items.idxOf item) place
  rwa [getElem_map, getElem_idxOf] at found

omit [DecidableEq α] in
/-- A list without duplicates is no longer than the type is large. -/
theorem length_le_of_nodup {f : α → Nat} (injective : ∀ a b, f a = f b → a = b) {size : Nat}
    (small : ∀ a, f a < size) (unique : items.Nodup) : items.length ≤ size := by
  have distinct : (items.map f).Nodup := unique.map injective
  have inside : items.map f ⊆ List.range size := by
    intro number member
    obtain ⟨a, -, rfl⟩ := mem_map.mp member
    exact mem_range.mpr (small a)
  have bound := (subperm_of_subset distinct inside).length_le
  rwa [length_map, length_range] at bound

end FirstSeen
