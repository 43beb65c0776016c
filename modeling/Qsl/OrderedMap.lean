import Mathlib.Algebra.GroupWithZero.Nat
import Mathlib.Order.RelClasses
import Mathlib.Data.List.Nodup
import Mathlib.Tactic.Common

/-- A finite map as its entries in strictly increasing key order under the
comparator `lt`, the order in which a `std::map` iterates. -/
structure OrderedMap (κ ν : Type) (lt : κ → κ → Prop) where
  entries : List (κ × ν)
  sorted : entries.Pairwise (fun a b => lt a.1 b.1)

namespace OrderedMap

open List

variable {κ ν : Type} {lt : κ → κ → Prop}

@[ext] theorem ext {m n : OrderedMap κ ν lt} (same : m.entries = n.entries) : m = n := by
  cases m
  cases n
  simp only [mk.injEq]
  exact same

/-- The map without entries. -/
def empty : OrderedMap κ ν lt := ⟨[], List.Pairwise.nil⟩

def size (m : OrderedMap κ ν lt) : Nat := m.entries.length

def isEmpty (m : OrderedMap κ ν lt) : Bool := m.entries.isEmpty

/-- The entry with the least key, `begin()`. -/
def first? (m : OrderedMap κ ν lt) : Option (κ × ν) := m.entries.head?

/-- The entry with the greatest key. -/
def last? (m : OrderedMap κ ν lt) : Option (κ × ν) := m.entries.getLast?

def keys (m : OrderedMap κ ν lt) : List κ := m.entries.map Prod.fst

@[simp] theorem empty_entries : (empty : OrderedMap κ ν lt).entries = [] := rfl

section Lookup

variable [DecidableEq κ]

def lookup (key : κ) : List (κ × ν) → Option ν
  | [] => none
  | entry :: rest => if entry.1 = key then some entry.2 else lookup key rest

def find? (m : OrderedMap κ ν lt) (key : κ) : Option ν := lookup key m.entries

def contains (m : OrderedMap κ ν lt) (key : κ) : Bool := (m.find? key).isSome

/-- `erase(key)`; a missing key changes nothing. -/
def erase (m : OrderedMap κ ν lt) (key : κ) : OrderedMap κ ν lt :=
  ⟨m.entries.filter (fun entry => entry.1 ≠ key), m.sorted.filter _⟩

@[simp] theorem lookup_nil (key : κ) : lookup key ([] : List (κ × ν)) = none := rfl

@[simp] theorem lookup_cons (key : κ) (entry : κ × ν) (rest : List (κ × ν)) :
    lookup key (entry :: rest) = if entry.1 = key then some entry.2 else lookup key rest := rfl

/-- The entry that a lookup reads. -/
theorem find?_entries (key : κ) (entries : List (κ × ν)) :
    entries.find? (fun entry => entry.1 = key) = (lookup key entries).map (Prod.mk key) := by
  induction entries with
  | nil => rfl
  | cons entry rest ih =>
    rw [find?_cons, lookup_cons, ih]
    by_cases same : entry.1 = key
    · subst same
      simp
    · simp [same]

theorem lookup_mem {key : κ} {value : ν} {entries : List (κ × ν)}
    (found : lookup key entries = some value) : (key, value) ∈ entries := by
  induction entries with
  | nil => cases found
  | cons entry rest ih =>
    rw [lookup_cons] at found
    split at found
    · rename_i same
      cases found
      subst same
      exact mem_cons_self
    · exact mem_cons_of_mem _ (ih found)

theorem lookup_none_of_absent {key : κ} {entries : List (κ × ν)}
    (absent : ∀ entry ∈ entries, entry.1 ≠ key) : lookup key entries = none := by
  induction entries with
  | nil => rfl
  | cons entry rest ih =>
    rw [lookup_cons, if_neg (absent entry mem_cons_self)]
    exact ih (fun other member => absent other (mem_cons_of_mem _ member))

theorem lookup_filter_ne (key other : κ) (entries : List (κ × ν)) :
    lookup other (entries.filter (fun entry => entry.1 ≠ key)) =
      if other = key then none else lookup other entries := by
  induction entries with
  | nil => simp
  | cons entry rest ih =>
    by_cases hit : entry.1 = key
    · rw [filter_cons_of_neg (by simp [hit]), ih, lookup_cons]
      by_cases same : other = key
      · simp [same]
      · have miss : ¬ entry.1 = other := fun h => same (h.symm.trans hit)
        simp [same, miss]
    · rw [filter_cons_of_pos (by simp [hit]), lookup_cons, lookup_cons, ih]
      by_cases same : other = key
      · subst same
        simp [hit]
      · simp [same]

@[simp] theorem find?_empty (key : κ) : (empty : OrderedMap κ ν lt).find? key = none := rfl

@[simp] theorem find?_erase (m : OrderedMap κ ν lt) (key other : κ) :
    (m.erase key).find? other = if other = key then none else m.find? other :=
  lookup_filter_ne key other m.entries

end Lookup

theorem head_below {m : OrderedMap κ ν lt} {entry : κ × ν} {rest : List (κ × ν)}
    (shape : m.entries = entry :: rest) : ∀ other ∈ rest, lt entry.1 other.1 := by
  have sorted := m.sorted
  rw [shape] at sorted
  exact (pairwise_cons.mp sorted).1

section Ordered

variable [IsStrictTotalOrder κ lt]

theorem keys_nodup (m : OrderedMap κ ν lt) : m.keys.Nodup := by
  rw [keys, List.Nodup, pairwise_map]
  refine m.sorted.imp ?_
  intro a b below same
  rw [same] at below
  exact irrefl _ below

theorem eq_of_not_lt {a b : κ} (notBelow : ¬ lt a b) (notAbove : ¬ lt b a) : a = b :=
  (Std.Trichotomous.trichotomous (r := lt) a b notBelow notAbove)

variable [DecidableEq κ]

theorem lookup_of_mem {key : κ} {value : ν} {entries : List (κ × ν)}
    (sorted : entries.Pairwise (fun a b => lt a.1 b.1)) (member : (key, value) ∈ entries) :
    lookup key entries = some value := by
  induction entries with
  | nil => cases member
  | cons entry rest ih =>
    rw [pairwise_cons] at sorted
    rw [lookup_cons]
    rcases mem_cons.mp member with same | later
    · subst same
      simp
    · have below := sorted.1 _ later
      have differ : entry.1 ≠ key := by
        intro same
        rw [same] at below
        exact irrefl _ below
      rw [if_neg differ]
      exact ih sorted.2 later

theorem find?_eq_some {m : OrderedMap κ ν lt} {key : κ} {value : ν} :
    m.find? key = some value ↔ (key, value) ∈ m.entries :=
  ⟨lookup_mem, lookup_of_mem m.sorted⟩

theorem find?_eq_none {m : OrderedMap κ ν lt} {key : κ} :
    m.find? key = none ↔ key ∉ m.keys := by
  rw [keys, mem_map]
  constructor
  · rintro missing ⟨⟨_, value⟩, member, rfl⟩
    rw [find?_eq_some.mpr member] at missing
    cases missing
  · intro absent
    refine lookup_none_of_absent ?_
    intro entry member same
    exact absent ⟨entry, member, same⟩

/-- Maps that answer every lookup alike are equal. -/
theorem eq_of_find?_eq {m n : OrderedMap κ ν lt}
    (same : ∀ key, m.find? key = n.find? key) : m = n := by
  apply ext
  refine List.Perm.eq_of_pairwise ?_ m.sorted n.sorted ?_
  · intro a b _ _ below above
    exact absurd above (asymm below)
  · refine (perm_ext_iff_of_nodup ?_ ?_).mpr ?_
    · exact List.Nodup.of_map Prod.fst m.keys_nodup
    · exact List.Nodup.of_map Prod.fst n.keys_nodup
    · rintro ⟨key, value⟩
      rw [← find?_eq_some, ← find?_eq_some, same]

/-- Erasing a key takes out its entry alone. -/
theorem erase_middle {m : OrderedMap κ ν lt} {key : κ} {value : ν} {front back : List (κ × ν)}
    (shape : m.entries = front ++ (key, value) :: back) : (m.erase key).entries = front ++ back := by
  have distinct := m.keys_nodup
  rw [keys, shape, map_append, map_cons, nodup_append] at distinct
  have others : ∀ entry ∈ front ++ back, entry.1 ≠ key := by
    intro entry member same
    rcases mem_append.mp member with before | behind
    · exact distinct.2.2 _ (mem_map_of_mem before) _ mem_cons_self same
    · exact (nodup_cons.mp distinct.2.1).1 (mem_map.mpr ⟨entry, behind, same⟩)
  simp only [erase, shape]
  rw [filter_append, filter_cons_of_neg (by simp), ← filter_append]
  apply filter_eq_self.mpr
  intro entry member
  simp [others entry member]

theorem erase_first {m : OrderedMap κ ν lt} {key : κ} {value : ν} {rest : List (κ × ν)}
    (shape : m.entries = (key, value) :: rest) : (m.erase key).entries = rest := by
  have shape' : m.entries = [] ++ (key, value) :: rest := shape
  exact erase_middle shape'

end Ordered

section Insert

/-- Walk to the key's place; an equivalent key has its value replaced. -/
def place (lt : κ → κ → Prop) [DecidableRel lt] (key : κ) (value : ν) :
    List (κ × ν) → List (κ × ν)
  | [] => [(key, value)]
  | entry :: rest =>
    if lt key entry.1 then (key, value) :: entry :: rest
    else if lt entry.1 key then entry :: place lt key value rest
    else (key, value) :: rest

variable [DecidableRel lt]

theorem place_mem {key : κ} {value : ν} {entries : List (κ × ν)} {entry : κ × ν}
    (member : entry ∈ place lt key value entries) :
    entry = (key, value) ∨ entry ∈ entries := by
  induction entries with
  | nil => exact Or.inl (mem_singleton.mp member)
  | cons first rest ih =>
    unfold place at member
    split at member
    · exact mem_cons.mp member
    · split at member
      · rcases mem_cons.mp member with same | later
        · exact Or.inr (mem_cons.mpr (Or.inl same))
        · exact (ih later).imp_right (mem_cons_of_mem _)
      · exact (mem_cons.mp member).imp_right (mem_cons_of_mem _)

variable [IsStrictTotalOrder κ lt]

theorem place_sorted {key : κ} {value : ν} {entries : List (κ × ν)}
    (sorted : entries.Pairwise (fun a b => lt a.1 b.1)) :
    (place lt key value entries).Pairwise (fun a b => lt a.1 b.1) := by
  induction entries with
  | nil => exact pairwise_singleton _ _
  | cons first rest ih =>
    have tail := pairwise_cons.mp sorted
    unfold place
    split
    · rename_i below
      refine pairwise_cons.mpr ⟨?_, sorted⟩
      intro other member
      rcases mem_cons.mp member with same | later
      · rw [same]
        exact below
      · exact IsTrans.trans _ _ _ below (tail.1 other later)
    · rename_i notBelow
      split
      · rename_i above
        refine pairwise_cons.mpr ⟨?_, ih tail.2⟩
        intro other member
        rcases place_mem member with same | later
        · rw [same]
          exact above
        · exact tail.1 other later
      · rename_i notAbove
        have same := eq_of_not_lt notBelow notAbove
        refine pairwise_cons.mpr ⟨?_, tail.2⟩
        intro other later
        rw [same]
        exact tail.1 other later

/-- `insert_or_assign(key, value)`. -/
def insert (m : OrderedMap κ ν lt) (key : κ) (value : ν) : OrderedMap κ ν lt :=
  ⟨place lt key value m.entries, place_sorted m.sorted⟩

theorem place_middle {key : κ} {old value : ν} {front back : List (κ × ν)}
    (below : ∀ entry ∈ front, lt entry.1 key) :
    place lt key value (front ++ (key, old) :: back) = front ++ (key, value) :: back := by
  induction front with
  | nil =>
    rw [nil_append, place, if_neg (irrefl key), if_neg (irrefl key)]
    rfl
  | cons first front ih =>
    have lower := below first mem_cons_self
    rw [cons_append, place, if_neg (asymm lower), if_pos lower,
      ih (fun entry member => below entry (mem_cons_of_mem _ member))]
    rfl

/-- Replacing the value under a key keeps the entry in its place. -/
theorem insert_middle {m : OrderedMap κ ν lt} {key : κ} {old : ν} {front back : List (κ × ν)}
    (shape : m.entries = front ++ (key, old) :: back) (value : ν) :
    (m.insert key value).entries = front ++ (key, value) :: back := by
  have sorted := m.sorted
  rw [shape, pairwise_append] at sorted
  simp only [insert, shape]
  exact place_middle (fun entry member => sorted.2.2 entry member _ mem_cons_self)

/-- Replacing the value under the least key keeps the entry in front. -/
theorem insert_first {m : OrderedMap κ ν lt} {key : κ} {old : ν} {rest : List (κ × ν)}
    (shape : m.entries = (key, old) :: rest) (value : ν) :
    (m.insert key value).entries = (key, value) :: rest := by
  have shape' : m.entries = [] ++ (key, old) :: rest := shape
  exact insert_middle shape' value

variable [DecidableEq κ]

theorem lookup_place {key other : κ} {value : ν} {entries : List (κ × ν)}
    (sorted : entries.Pairwise (fun a b => lt a.1 b.1)) :
    lookup other (place lt key value entries) =
      if other = key then some value else lookup other entries := by
  induction entries with
  | nil =>
    by_cases same : other = key
    · simp [place, same]
    · simp [place, same, Ne.symm same]
  | cons first rest ih =>
    have tail := pairwise_cons.mp sorted
    unfold place
    split
    · by_cases same : other = key
      · simp [same]
      · simp [same, Ne.symm same]
    · rename_i notBelow
      split
      · rename_i above
        rw [lookup_cons, ih tail.2, lookup_cons]
        by_cases same : other = key
        · have differ : first.1 ≠ other := by
            intro hit
            rw [hit, same] at above
            exact irrefl _ above
          simp [same, same ▸ differ]
        · simp [same]
      · rename_i notAbove
        have hit := eq_of_not_lt notBelow notAbove
        by_cases same : other = key
        · simp [same]
        · simp [same, Ne.symm same, ← hit]

@[simp] theorem find?_insert (m : OrderedMap κ ν lt) (key other : κ) (value : ν) :
    (m.insert key value).find? other = if other = key then some value else m.find? other :=
  lookup_place m.sorted

/-- Writing a value only where there is none adds at most that value. -/
theorem find?_insert_missing (m : OrderedMap κ ν lt) (key other : κ) (value : ν) :
    (if m.contains key then m else m.insert key value).find? other = m.find? other ∨
      m.find? other = none ∧
        (if m.contains key then m else m.insert key value).find? other = some value := by
  cases known : m.contains key with
  | true => exact Or.inl rfl
  | false =>
    simp only [Bool.false_eq_true, if_false, find?_insert]
    split
    · rename_i same
      refine Or.inr ⟨?_, rfl⟩
      rw [same]
      simpa [contains] using known
    · exact Or.inl rfl

@[simp] theorem insert_self (m : OrderedMap κ ν lt) {key : κ} {value : ν}
    (found : m.find? key = some value) : m.insert key value = m := by
  apply eq_of_find?_eq
  intro other
  rw [find?_insert]
  split
  · rename_i same
    rw [same, found]
  · rfl

/-- The map with a function applied to every value. -/
def mapValues {μ : Type} (f : ν → μ) (m : OrderedMap κ ν lt) : OrderedMap κ μ lt :=
  ⟨m.entries.map (fun entry => (entry.1, f entry.2)), pairwise_map.mpr m.sorted⟩

omit [DecidableRel lt] [IsStrictTotalOrder κ lt] in
@[simp] theorem find?_mapValues {μ : Type} (f : ν → μ) (m : OrderedMap κ ν lt) (key : κ) :
    (m.mapValues f).find? key = (m.find? key).map f := by
  have mapped : ∀ entries : List (κ × ν),
      lookup key (entries.map (fun entry => (entry.1, f entry.2))) = (lookup key entries).map f := by
    intro entries
    induction entries with
    | nil => rfl
    | cons entry rest ih =>
      rw [map_cons, lookup_cons, lookup_cons, ih]
      split <;> rfl
  exact mapped m.entries

theorem mapValues_insert {μ : Type} (f : ν → μ) (m : OrderedMap κ ν lt) (key : κ) (value : ν) :
    (m.insert key value).mapValues f = (m.mapValues f).insert key (f value) := by
  apply eq_of_find?_eq
  intro other
  rw [find?_mapValues, find?_insert, find?_insert, find?_mapValues]
  split <;> rfl

/-- The sum of a measure over the values. -/
def total (f : ν → Nat) (m : OrderedMap κ ν lt) : Nat := (m.entries.map (fun entry => f entry.2)).sum

end Insert

end OrderedMap
