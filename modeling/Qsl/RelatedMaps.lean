import Qsl.OrderedMap

/- Two ordered maps entry by entry in step, the keys of the second being images of those of
the first. -/
namespace OrderedMap

open List

variable {κ κ' ν μ : Type} {lt : κ → κ → Prop} {lt' : κ' → κ' → Prop} {image : κ → κ'}
  {rel : ν → μ → Prop} {m : OrderedMap κ ν lt} {n : OrderedMap κ' μ lt'}

def Related (image : κ → κ') (rel : ν → μ → Prop) (m : OrderedMap κ ν lt)
    (n : OrderedMap κ' μ lt') : Prop :=
  List.Forall₂ (fun a b => b.1 = image a.1 ∧ rel a.2 b.2) m.entries n.entries

theorem related_empty : Related image rel (empty : OrderedMap κ ν lt)
    (empty : OrderedMap κ' μ lt') := List.Forall₂.nil

/-- What is computed from each entry is the same on both sides. -/
theorem Related.map_entries {γ : Type} (related : Related image rel m n) {f : κ → ν → γ}
    {g : κ' → μ → γ}
    (same : ∀ key value value', (key, value) ∈ m.entries → rel value value' →
      f key value = g (image key) value') :
    m.entries.map (fun entry => f entry.1 entry.2) =
      n.entries.map (fun entry => g entry.1 entry.2) := by
  rw [Related] at related
  generalize m.entries = entries at related same ⊢
  generalize n.entries = images at related ⊢
  induction related with
  | nil => rfl
  | cons entry rest ih =>
    rw [map_cons, map_cons, entry.1, same _ _ _ mem_cons_self entry.2,
      ih (fun key value value' member => same key value value' (mem_cons_of_mem _ member))]

section Lookup

variable [DecidableEq κ] [DecidableEq κ']

theorem Related.find?_none (related : Related image rel m n) (injective : Function.Injective image)
    {key : κ} (missing : m.find? key = none) : n.find? (image key) = none := by
  rw [Related] at related
  rw [find?] at missing ⊢
  generalize m.entries = entries at related missing
  generalize n.entries = images at related ⊢
  induction related with
  | nil => rfl
  | @cons a b as bs entry rest ih =>
    rw [lookup_cons] at missing ⊢
    split at missing
    · cases missing
    · rename_i differ
      rw [entry.1, if_neg (injective.ne differ)]
      exact ih missing

theorem Related.find?_some (related : Related image rel m n) (injective : Function.Injective image)
    {key : κ} {value : ν} (found : m.find? key = some value) :
    ∃ value', n.find? (image key) = some value' ∧ rel value value' := by
  rw [Related] at related
  rw [find?] at found
  simp only [find?]
  generalize m.entries = entries at related found
  generalize n.entries = images at related ⊢
  induction related with
  | nil => cases found
  | @cons a b as bs entry rest ih =>
    rw [lookup_cons] at found ⊢
    split at found
    · rename_i same
      rw [entry.1, if_pos (congrArg image same)]
      cases found
      exact ⟨b.2, rfl, entry.2⟩
    · rename_i differ
      rw [entry.1, if_neg (injective.ne differ)]
      exact ih found

end Lookup

/-- Writing related values under a key and its image keeps the maps in step. -/
theorem Related.insert [DecidableRel lt] [IsStrictTotalOrder κ lt] [DecidableRel lt']
    [IsStrictTotalOrder κ' lt'] (related : Related image rel m n)
    (monotone : ∀ a b, lt' (image a) (image b) ↔ lt a b) {key : κ} {value : ν} {value' : μ}
    (entry : rel value value') :
    Related image rel (m.insert key value) (n.insert (image key) value') := by
  rw [Related] at related ⊢
  simp only [OrderedMap.insert]
  generalize m.entries = entries at related ⊢
  generalize n.entries = images at related ⊢
  induction related with
  | nil => exact List.Forall₂.cons ⟨rfl, entry⟩ List.Forall₂.nil
  | @cons a b as bs first rest ih =>
    rw [place, place, first.1]
    simp only [monotone]
    split
    · exact List.Forall₂.cons ⟨rfl, entry⟩ (List.Forall₂.cons first rest)
    · split
      · exact List.Forall₂.cons first ih
      · exact List.Forall₂.cons ⟨rfl, entry⟩ rest

end OrderedMap
