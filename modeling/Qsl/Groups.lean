import Qsl.Buckets

/- A list kept as a map of non-empty groups: under each key the elements that belong there,
in the order of the list. Only the order inside a group is in the map, so that one list may
be read with its keys ascending and another with them descending. -/
namespace OrderedMap

open List

section Ends

variable {κ ν : Type} {lt : κ → κ → Prop} {m : OrderedMap κ ν lt}

theorem first?_eq_some {key : κ} {value : ν} (member : (key, value) ∈ m.entries)
    (least : ∀ entry ∈ m.entries, ¬ lt entry.1 key) : m.first? = some (key, value) := by
  rw [first?]
  cases shape : m.entries with
  | nil =>
    rw [shape] at member
    cases member
  | cons entry rest =>
    rw [shape] at member least
    rcases mem_cons.mp member with same | later
    · rw [same]
      rfl
    · exact absurd (head_below shape _ later) (least entry mem_cons_self)

theorem last?_eq_some {key : κ} {value : ν} (member : (key, value) ∈ m.entries)
    (greatest : ∀ entry ∈ m.entries, ¬ lt key entry.1) : m.last? = some (key, value) := by
  rw [last?]
  have sorted := m.sorted
  rcases eq_nil_or_concat m.entries with vacant | ⟨front, entry, shape⟩
  · rw [vacant] at member
    cases member
  · have final : entry ∈ [entry] := mem_singleton.mpr rfl
    rw [concat_eq_append] at shape
    rw [shape] at member greatest sorted ⊢
    rw [pairwise_append] at sorted
    rw [getLast?_concat]
    rcases mem_append.mp member with earlier | same
    · exact absurd (sorted.2.2 _ earlier entry final)
        (greatest entry (mem_append_right _ final))
    · rw [mem_singleton.mp same]

theorem size_erase_lt [DecidableEq κ] {key : κ} {value : ν} (member : (key, value) ∈ m.entries) :
    (m.erase key).size < m.size := by
  apply length_filter_lt_length_iff_exists.mpr
  exact ⟨(key, value), member, by simp⟩

end Ends

variable {κ α β : Type} {lt : κ → κ → Prop} [DecidableEq κ]

/-- The entries of the elements filed under a key. -/
def groupAt (keyOf : α → κ) (entry : α → β) (xs : List α) (key : κ) : List β :=
  (xs.filter (fun x => keyOf x = key)).map entry

/-- A group as it is stored: an empty one is absent. -/
def present (group : List β) : Option (List β) := if group.isEmpty then none else some group

def Groups (keyOf : α → κ) (entry : α → β) (m : OrderedMap κ (List β) lt) (xs : List α) : Prop :=
  ∀ key, m.find? key = present (groupAt keyOf entry xs key)

section Read

variable {keyOf : α → κ} {entry : α → β} {m : OrderedMap κ (List β) lt} {xs : List α}

theorem groups_empty : Groups keyOf entry (empty : OrderedMap κ (List β) lt) [] := fun _ => rfl

theorem groupAt_ne_nil {x : α} (member : x ∈ xs) : groupAt keyOf entry xs (keyOf x) ≠ [] := by
  apply ne_nil_of_mem (a := entry x)
  exact mem_map_of_mem (mem_filter.mpr ⟨member, decide_eq_true rfl⟩)

theorem Groups.find?_of_mem (grouped : Groups keyOf entry m xs) {x : α} (member : x ∈ xs) :
    m.find? (keyOf x) = some (groupAt keyOf entry xs (keyOf x)) := by
  rw [grouped, present, isEmpty_eq_false_iff.mpr (groupAt_ne_nil member)]
  rfl

variable [IsStrictTotalOrder κ lt]

/-- The keys of the map are those of the elements. -/
theorem Groups.mem_keys (grouped : Groups keyOf entry m xs) (key : κ) :
    key ∈ m.keys ↔ ∃ x ∈ xs, keyOf x = key := by
  constructor
  · intro listed
    by_contra absent
    have missing : groupAt keyOf entry xs key = [] := by
      rw [groupAt, map_eq_nil_iff, filter_eq_nil_iff]
      intro x member hit
      exact absent ⟨x, member, of_decide_eq_true hit⟩
    have none := grouped key
    rw [missing] at none
    exact find?_eq_none.mp none listed
  · intro ⟨x, member, same⟩
    by_contra absent
    have found := grouped.find?_of_mem member
    rw [same, find?_eq_none.mpr absent] at found
    cases found

theorem Groups.entry_key (grouped : Groups keyOf entry m xs) {listed : κ × List β}
    (member : listed ∈ m.entries) : ∃ x ∈ xs, keyOf x = listed.1 :=
  (grouped.mem_keys listed.1).mp (mem_map_of_mem member)

theorem Groups.entries_nil (grouped : Groups keyOf entry m []) : m.entries = [] := by
  apply eq_nil_iff_forall_not_mem.mpr
  intro listed member
  obtain ⟨x, absent, _⟩ := grouped.entry_key member
  cases absent

theorem Groups.first? (grouped : Groups keyOf entry m xs) {x : α} (member : x ∈ xs)
    (least : ∀ y ∈ xs, ¬ lt (keyOf y) (keyOf x)) :
    m.first? = some (keyOf x, groupAt keyOf entry xs (keyOf x)) := by
  apply first?_eq_some (find?_eq_some.mp (grouped.find?_of_mem member))
  intro listed inside
  obtain ⟨y, belongs, same⟩ := grouped.entry_key inside
  rw [← same]
  exact least y belongs

theorem Groups.last? (grouped : Groups keyOf entry m xs) {x : α} (member : x ∈ xs)
    (greatest : ∀ y ∈ xs, ¬ lt (keyOf x) (keyOf y)) :
    m.last? = some (keyOf x, groupAt keyOf entry xs (keyOf x)) := by
  apply last?_eq_some (find?_eq_some.mp (grouped.find?_of_mem member))
  intro listed inside
  obtain ⟨y, belongs, same⟩ := grouped.entry_key inside
  rw [← same]
  exact greatest y belongs

/-- The keys are the only strictly ordered list of the elements' keys. -/
theorem Groups.keys_eq (grouped : Groups keyOf entry m xs) {keys : List κ}
    (sorted : keys.Pairwise lt) (listed : ∀ key, key ∈ keys ↔ ∃ x ∈ xs, keyOf x = key) :
    m.keys = keys := by
  have distinct : keys.Nodup := by
    apply sorted.imp
    intro a b below same
    rw [same] at below
    exact irrefl _ below
  have same : m.keys.Perm keys := by
    apply (perm_ext_iff_of_nodup m.keys_nodup distinct).mpr
    intro key
    rw [grouped.mem_keys, listed]
  exact same.eq_of_pairwise (fun a b _ _ ab ba => absurd ba (asymm ab)) m.keys_sorted sorted

/-- What is computed from each entry is computed from each key and its group. -/
theorem Groups.map_entries {γ : Type} (grouped : Groups keyOf entry m xs)
    (f : κ → List β → γ) :
    m.entries.map (fun listed => f listed.1 listed.2) =
      m.keys.map (fun key => f key (groupAt keyOf entry xs key)) := by
  rw [keys, map_map]
  apply map_congr_left
  intro listed inside
  obtain ⟨x, member, same⟩ := grouped.entry_key inside
  have found := grouped.find?_of_mem member
  rw [same, find?_eq_some.mpr inside] at found
  rw [Option.some.inj found]
  rfl

end Read

section Write

variable [IsStrictTotalOrder κ lt] [DecidableRel lt] {keyOf : α → κ} {entry : α → β}
  {m : OrderedMap κ (List β) lt} {xs : List α}

/-- Write a group back, or take it out once it is empty. -/
def putGroup (m : OrderedMap κ (List β) lt) (key : κ) (group : List β) : OrderedMap κ (List β) lt :=
  if group.isEmpty then m.erase key else m.insert key group

theorem putGroup_eq (m : OrderedMap κ (List β) lt) (key : κ) (group : List β)
    [Decidable (group = [])] :
    (if group = [] then m.erase key else m.insert key group) = m.putGroup key group := by
  rw [putGroup]
  cases group with
  | nil => rw [if_pos rfl, if_pos isEmpty_nil]
  | cons x xs => rw [if_neg (cons_ne_nil x xs), if_neg (by simp)]

theorem find?_putGroup (m : OrderedMap κ (List β) lt) (key other : κ) (group : List β) :
    (m.putGroup key group).find? other = if other = key then present group else m.find? other := by
  rw [putGroup, present]
  by_cases vacant : group.isEmpty = true
  · rw [if_pos vacant, if_pos vacant, find?_erase]
  · rw [if_neg vacant, if_neg vacant, find?_insert]

section

variable (grouped : Groups keyOf entry m xs) (ys : List α) (key : κ)
  (others : ∀ other, other ≠ key → groupAt keyOf entry ys other = groupAt keyOf entry xs other)

include grouped ys key others

/-- A change of the list under one key is a change of that group. -/
theorem Groups.put : Groups keyOf entry (m.putGroup key (groupAt keyOf entry ys key)) ys := by
  intro other
  rw [find?_putGroup]
  split
  · rename_i same
    rw [same]
  · rename_i differ
    rw [grouped, others other differ]

/-- The same for a group that keeps an element, which is written back unseen. -/
theorem Groups.insert (kept : groupAt keyOf entry ys key ≠ []) :
    Groups keyOf entry (m.insert key (groupAt keyOf entry ys key)) ys := by
  have written := grouped.put ys key others
  rwa [putGroup, if_neg (by rwa [List.isEmpty_iff])] at written

end

end Write

section Leading

variable [IsStrictTotalOrder κ lt] {keyOf : α → κ} {xs : List α} {key : κ}

/-- In a list ordered by key the elements with the first key stand in front. -/
theorem leading_group (ordered : xs.Pairwise (fun a b => ¬ lt (keyOf b) (keyOf a)))
    (least : ∀ x ∈ xs, ¬ lt (keyOf x) key) :
    xs = xs.filter (fun x => keyOf x = key) ++ xs.filter (fun x => keyOf x ≠ key) := by
  induction xs with
  | nil => rfl
  | cons x xs ih =>
    rw [pairwise_cons] at ordered
    have rest := ih ordered.2 (fun y member => least y (mem_cons_of_mem _ member))
    by_cases same : keyOf x = key
    · rw [filter_cons_of_pos (by simp [same]), filter_cons_of_neg (by simp [same]),
        cons_append, ← rest]
    · -- a greater key in front leaves no element with the first one
      have none : (x :: xs).filter (fun y => keyOf y = key) = [] := by
        rw [filter_eq_nil_iff]
        intro y member hit
        have notBelow := least x mem_cons_self
        rw [← of_decide_eq_true hit] at notBelow same
        rcases mem_cons.mp member with equal | later
        · exact same (by rw [equal])
        · exact same (eq_of_not_lt notBelow (ordered.1 y later))
      rw [none, nil_append]
      symm
      apply filter_eq_self.mpr
      intro y member
      have other := filter_eq_nil_iff.mp none y member
      simpa using other

variable [DecidableRel lt]

omit [DecidableEq κ] in
/-- An element inserted behind its equals joins the end of its group and leaves the others.
A group is any set of elements with one key. -/
theorem filter_orderedInsert (ordered : xs.Pairwise (fun a b => ¬ lt (keyOf b) (keyOf a))) (x : α)
    {inside : α → Bool}
    (group : ∀ a b, inside a = true → inside b = true → keyOf a = keyOf b) :
    (xs.orderedInsert (fun a b => lt (keyOf a) (keyOf b)) x).filter inside =
      xs.filter inside ++ if inside x then [x] else [] := by
  induction xs with
  | nil => cases member : inside x <;> simp [member]
  | cons y xs ih =>
    rw [pairwise_cons] at ordered
    rw [orderedInsert_cons]
    split
    · rename_i below
      cases member : inside x with
      | true =>
        -- everything from here on has a greater key
        have none : (y :: xs).filter inside = [] := by
          rw [filter_eq_nil_iff]
          intro z listed hit
          rw [group x z member hit] at below
          rcases mem_cons.mp listed with equal | later
          · rw [equal] at below
            exact irrefl _ below
          · exact ordered.1 z later below
        rw [filter_cons_of_pos member, none, if_pos rfl]
        rfl
      | false =>
        rw [filter_cons_of_neg (by simp [member]), if_neg Bool.false_ne_true,
          append_nil]
    · rw [filter_cons, filter_cons, ih ordered.2]
      split <;> rfl

end Leading

end OrderedMap
