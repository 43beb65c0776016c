import Qsl.OrderedMap
import Mathlib.Data.List.Perm.Basic

namespace OrderedMap

open List

variable {κ ν : Type} {lt : κ → κ → Prop}

/-- The map lists exactly the given key/position pairs, in whatever order the
pairs are collected. Keys of such a collection cannot repeat. -/
def Indexes (m : OrderedMap κ ν lt) (pairs : List (κ × ν)) : Prop := m.entries.Perm pairs

theorem indexes_empty : Indexes (empty : OrderedMap κ ν lt) [] := List.Perm.refl _

namespace Indexes

variable {m : OrderedMap κ ν lt} {pairs : List (κ × ν)}

theorem perm {other : List (κ × ν)} (exact : m.Indexes pairs) (same : pairs.Perm other) :
    m.Indexes other := List.Perm.trans exact same

theorem size_eq (exact : m.Indexes pairs) : m.size = pairs.length := List.Perm.length_eq exact

variable [IsStrictTotalOrder κ lt]

theorem nodup (exact : m.Indexes pairs) : (pairs.map Prod.fst).Nodup :=
  (List.Perm.map Prod.fst exact).nodup_iff.mp m.keys_nodup

section Record

variable [DecidableRel lt]

theorem place_perm {key : κ} {value : ν} {entries : List (κ × ν)}
    (absent : key ∉ entries.map Prod.fst) :
    (place lt key value entries).Perm ((key, value) :: entries) := by
  induction entries with
  | nil => exact List.Perm.refl _
  | cons first rest ih =>
    rw [map_cons, mem_cons, not_or] at absent
    unfold place
    split
    · exact List.Perm.refl _
    · rename_i notBelow
      split
      · exact ((ih absent.2).cons first).trans (List.Perm.swap _ _ _)
      · rename_i notAbove
        exact absurd (eq_of_not_lt notBelow notAbove) absent.1

/-- Recording a key that is not yet listed adds one pair. -/
theorem insert_fresh (exact : m.Indexes pairs) {key : κ} {value : ν}
    (absent : key ∉ pairs.map Prod.fst) : (m.insert key value).Indexes ((key, value) :: pairs) := by
  have missing : key ∉ m.entries.map Prod.fst := by
    rwa [(List.Perm.map Prod.fst exact).mem_iff]
  exact (place_perm missing).trans (List.Perm.cons _ exact)

end Record

variable [DecidableEq κ]

theorem find? (exact : m.Indexes pairs) {key : κ} {value : ν} :
    m.find? key = some value ↔ (key, value) ∈ pairs :=
  find?_eq_some.trans (List.Perm.mem_iff exact)

theorem contains_iff (exact : m.Indexes pairs) {key : κ} :
    m.contains key = true ↔ key ∈ pairs.map Prod.fst := by
  rw [contains, Option.isSome_iff_exists, mem_map]
  constructor
  · rintro ⟨value, found⟩
    exact ⟨(key, value), exact.find?.mp found, rfl⟩
  · rintro ⟨⟨_, value⟩, member, rfl⟩
    exact ⟨value, exact.find?.mpr member⟩

omit [IsStrictTotalOrder κ lt] in
theorem erase (exact : m.Indexes pairs) (key : κ) :
    (m.erase key).Indexes (pairs.filter (fun pair => pair.1 ≠ key)) :=
  List.Perm.filter _ exact

/-- Erasing the key listed first leaves the rest of the list. -/
theorem erase_head {key : κ} {value : ν} (exact : m.Indexes ((key, value) :: pairs)) :
    (m.erase key).Indexes pairs := by
  have unique := nodup_cons.mp exact.nodup
  have rest : ((key, value) :: pairs).filter (fun pair => pair.1 ≠ key) = pairs := by
    rw [filter_cons_of_neg (by simp)]
    refine filter_eq_self.mpr ?_
    intro pair member
    have differ : pair.1 ≠ key := by
      intro same
      exact unique.1 (mem_map.mpr ⟨pair, member, same⟩)
    simpa using differ
  exact rest ▸ exact.erase key

/-- Writing a new value under the key listed first. -/
theorem replace_head [DecidableRel lt] {key : κ} {value value' : ν}
    (exact : m.Indexes ((key, value) :: pairs)) :
    (m.insert key value').Indexes ((key, value') :: pairs) := by
  have again : (m.erase key).insert key value' = m.insert key value' := by
    apply eq_of_find?_eq
    intro other
    rw [find?_insert, find?_insert, find?_erase]
    split <;> rfl
  rw [← again]
  exact exact.erase_head.insert_fresh (nodup_cons.mp exact.nodup).1

end Indexes

theorem size_insert [IsStrictTotalOrder κ lt] [DecidableRel lt] [DecidableEq κ]
    {m : OrderedMap κ ν lt} {key : κ} (missing : m.find? key = none) (value : ν) :
    (m.insert key value).size = m.size + 1 := by
  have whole : m.Indexes m.entries := List.Perm.refl _
  exact (whole.insert_fresh (find?_eq_none.mp missing)).size_eq

end OrderedMap
