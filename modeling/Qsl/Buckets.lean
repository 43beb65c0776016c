import Qsl.OrderedMap
import Mathlib.Data.List.Sort

/- A collection kept in buckets: `keys` lists the buckets in strictly increasing
order and `bucket key` holds the elements filed under `key`, oldest first. The
collection read bucket by bucket is a list ordered by key, first in first out. -/
namespace Buckets

open List

variable {κ α : Type} {lt : κ → κ → Prop} [IsStrictTotalOrder κ lt] {keyOf : α → κ}

/-- Every element lies in the bucket of its own key. -/
def Filed (keyOf : α → κ) (keys : List κ) (bucket : κ → List α) : Prop :=
  ∀ key ∈ keys, ∀ x ∈ bucket key, keyOf x = key

theorem Filed.tail {key : κ} {keys : List κ} {bucket : κ → List α}
    (filed : Filed keyOf (key :: keys) bucket) : Filed keyOf keys bucket :=
  fun other member => filed other (mem_cons_of_mem _ member)

theorem mem_iff {keys : List κ} {bucket : κ → List α} (filed : Filed keyOf keys bucket) {x : α} :
    x ∈ keys.flatMap bucket ↔ keyOf x ∈ keys ∧ x ∈ bucket (keyOf x) := by
  rw [mem_flatMap]
  constructor
  · rintro ⟨key, member, inside⟩
    rw [filed key member x inside]
    exact ⟨member, inside⟩
  · rintro ⟨member, inside⟩
    exact ⟨keyOf x, member, inside⟩

theorem filter_key {keys : List κ} {bucket : κ → List α} [DecidableEq κ]
    (sorted : keys.Pairwise lt) (filed : Filed keyOf keys bucket) {key : κ} (present : key ∈ keys) :
    (keys.flatMap bucket).filter (fun x => keyOf x = key) = bucket key := by
  induction keys with
  | nil => cases present
  | cons first keys ih =>
    rw [pairwise_cons] at sorted
    rw [flatMap_cons, filter_append]
    rcases mem_cons.mp present with same | later
    · subst same
      have whole : (bucket key).filter (fun x => keyOf x = key) = bucket key := by
        refine filter_eq_self.mpr ?_
        intro x inside
        simpa using filed key mem_cons_self x inside
      have none : (keys.flatMap bucket).filter (fun x => keyOf x = key) = [] := by
        refine filter_eq_nil_iff.mpr ?_
        intro x inside hit
        have place := (mem_iff filed.tail).mp inside
        have order := sorted.1 _ place.1
        rw [of_decide_eq_true hit] at order
        exact irrefl _ order
      rw [whole, none, append_nil]
    · have none : (bucket first).filter (fun x => keyOf x = key) = [] := by
        refine filter_eq_nil_iff.mpr ?_
        intro x inside hit
        have order := sorted.1 _ later
        rw [← of_decide_eq_true hit, filed first mem_cons_self x inside] at order
        exact irrefl _ order
      rw [none, nil_append]
      exact ih sorted.2 filed.tail later

section Append

variable [DecidableRel lt]

omit [IsStrictTotalOrder κ lt] in
theorem orderedInsert_append {xs ys : List α} {x : α}
    (passed : ∀ y ∈ xs, ¬ lt (keyOf x) (keyOf y)) :
    (xs ++ ys).orderedInsert (fun a b => lt (keyOf a) (keyOf b)) x =
      xs ++ ys.orderedInsert (fun a b => lt (keyOf a) (keyOf b)) x := by
  induction xs with
  | nil => rfl
  | cons y xs ih =>
    rw [cons_append, orderedInsert_cons, if_neg (passed y mem_cons_self),
      ih (fun z member => passed z (mem_cons_of_mem _ member)), cons_append]

omit [IsStrictTotalOrder κ lt] in
theorem orderedInsert_front {ys : List α} {x : α}
    (stops : ∀ y ∈ ys, lt (keyOf x) (keyOf y)) :
    ys.orderedInsert (fun a b => lt (keyOf a) (keyOf b)) x = x :: ys := by
  cases ys with
  | nil => rfl
  | cons y ys => rw [orderedInsert_cons, if_pos (stops y mem_cons_self)]

/-- Insertion behind equals keeps the reading order. -/
theorem orderedInsert_sorted {xs : List α} {x : α}
    (sorted : xs.Pairwise (fun a b => ¬ lt (keyOf b) (keyOf a))) :
    (xs.orderedInsert (fun a b => lt (keyOf a) (keyOf b)) x).Pairwise
      (fun a b => ¬ lt (keyOf b) (keyOf a)) := by
  induction xs with
  | nil => exact pairwise_singleton _ _
  | cons y xs ih =>
    have tail := pairwise_cons.mp sorted
    rw [orderedInsert_cons]
    split
    · rename_i below
      refine pairwise_cons.mpr ⟨?_, sorted⟩
      intro z member
      rcases mem_cons.mp member with same | later
      · rw [same]
        exact asymm below
      · intro above
        exact tail.1 z later (IsTrans.trans _ _ _ above below)
    · rename_i notBelow
      refine pairwise_cons.mpr ⟨?_, ih tail.2⟩
      intro z member
      rcases (mem_orderedInsert _).mp member with same | later
      · rw [same]
        exact notBelow
      · exact tail.1 z later

/-- Joining the back of the bucket of `x` is insertion behind every element of
an equal or smaller key. -/
theorem flatMap_append {keys : List κ} {bucket bucket' : κ → List α} {x : α}
    (sorted : keys.Pairwise lt) (filed : Filed keyOf keys bucket) (present : keyOf x ∈ keys)
    (joined : bucket' (keyOf x) = bucket (keyOf x) ++ [x])
    (others : ∀ key ∈ keys, key ≠ keyOf x → bucket' key = bucket key) :
    keys.flatMap bucket' =
      (keys.flatMap bucket).orderedInsert (fun a b => lt (keyOf a) (keyOf b)) x := by
  induction keys with
  | nil => cases present
  | cons key keys ih =>
    rw [pairwise_cons] at sorted
    have head := filed key mem_cons_self
    rw [flatMap_cons, flatMap_cons]
    rcases mem_cons.mp present with same | later
    · have rest : keys.flatMap bucket' = keys.flatMap bucket := by
        apply flatMap_congr
        intro other member
        refine others other (mem_cons_of_mem _ member) ?_
        intro hit
        have order := sorted.1 other member
        rw [hit, same] at order
        exact irrefl _ order
      have passed : ∀ y ∈ bucket key, ¬ lt (keyOf x) (keyOf y) := by
        intro y inside
        rw [head y inside, ← same]
        exact irrefl _
      have stops : ∀ y ∈ keys.flatMap bucket, lt (keyOf x) (keyOf y) := by
        intro y inside
        rw [same]
        exact sorted.1 _ ((mem_iff filed.tail).mp inside).1
      rw [orderedInsert_append passed, orderedInsert_front stops, rest, ← same, joined,
        append_assoc, singleton_append]
    · have differ : key ≠ keyOf x := by
        intro hit
        have order := sorted.1 _ later
        rw [← hit] at order
        exact irrefl _ order
      have passed : ∀ y ∈ bucket key, ¬ lt (keyOf x) (keyOf y) := by
        intro y inside
        rw [head y inside]
        exact asymm (sorted.1 _ later)
      rw [orderedInsert_append passed, others key mem_cons_self differ,
        ih sorted.2 filed.tail later
          (fun other member => others other (mem_cons_of_mem _ member))]

end Append

end Buckets

namespace OrderedMap

open List

variable {κ ν α : Type} {lt : κ → κ → Prop}

theorem keys_sorted (m : OrderedMap κ ν lt) : m.keys.Pairwise lt := by
  rw [keys, pairwise_map]
  exact m.sorted

theorem place_keys_of_mem [IsStrictTotalOrder κ lt] [DecidableRel lt] {key : κ} {value : ν}
    {entries : List (κ × ν)} (sorted : entries.Pairwise (fun a b => lt a.1 b.1))
    (present : key ∈ entries.map Prod.fst) :
    (place lt key value entries).map Prod.fst = entries.map Prod.fst := by
  induction entries with
  | nil => cases present
  | cons entry rest ih =>
    rw [pairwise_cons] at sorted
    rw [map_cons, mem_cons] at present
    unfold place
    split
    · rename_i below
      rcases present with same | later
      · rw [same] at below
        exact absurd below (irrefl _)
      · obtain ⟨other, member, same⟩ := mem_map.mp later
        have order := sorted.1 other member
        rw [same] at order
        exact absurd order (asymm below)
    · rename_i notBelow
      split
      · rename_i above
        rcases present with same | later
        · rw [same] at above
          exact absurd above (irrefl _)
        · rw [map_cons, map_cons, ih sorted.2 later]
      · rename_i notAbove
        rw [map_cons, map_cons, eq_of_not_lt notBelow notAbove]

/-- Everything a map holds, read entry by entry. -/
def collect (m : OrderedMap κ ν lt) (content : κ → ν → List α) : List α :=
  m.entries.flatMap (fun entry => content entry.1 entry.2)

theorem mem_collect {m : OrderedMap κ ν lt} {content : κ → ν → List α} {x : α} :
    x ∈ m.collect content ↔ ∃ entry ∈ m.entries, x ∈ content entry.1 entry.2 :=
  mem_flatMap

variable [DecidableEq κ]

/-- The elements a map files under a key, none when the key is absent. -/
def bucket (m : OrderedMap κ ν lt) (content : κ → ν → List α) (key : κ) : List α :=
  ((m.find? key).map (content key)).getD []

theorem bucket_erase (m : OrderedMap κ ν lt) (content : κ → ν → List α) (key other : κ) :
    (m.erase key).bucket content other = if other = key then [] else m.bucket content other := by
  simp only [bucket, find?_erase]
  split <;> rfl

/-- Dropping an empty bucket does not change the collection. -/
theorem flatMap_keys_erase (m : OrderedMap κ ν lt) (key : κ) {fill : κ → List α}
    (vacant : fill key = []) : (m.erase key).keys.flatMap fill = m.keys.flatMap fill := by
  simp only [keys, erase]
  induction m.entries with
  | nil => rfl
  | cons entry rest ih =>
    by_cases hit : entry.1 = key
    · rw [filter_cons_of_neg (by simp [hit]), ih, map_cons, flatMap_cons, hit,
        vacant, nil_append]
    · rw [filter_cons_of_pos (by simp [hit]), map_cons, map_cons,
        flatMap_cons, flatMap_cons, ih]

variable [IsStrictTotalOrder κ lt]

theorem bucket_of_mem {m : OrderedMap κ ν lt} {content : κ → ν → List α} {entry : κ × ν}
    (member : entry ∈ m.entries) : m.bucket content entry.1 = content entry.1 entry.2 := by
  rw [bucket, find?_eq_some.mpr member]
  rfl

theorem bucket_of_absent {m : OrderedMap κ ν lt} {content : κ → ν → List α} {key : κ}
    (absent : key ∉ m.keys) : m.bucket content key = [] := by
  rw [bucket, find?_eq_none.mpr absent]
  rfl

theorem collect_eq (m : OrderedMap κ ν lt) (content : κ → ν → List α) :
    m.collect content = m.keys.flatMap (m.bucket content) := by
  rw [collect, keys, flatMap_map]
  apply flatMap_congr
  intro entry member
  exact (bucket_of_mem member).symm

theorem erase_of_absent {m : OrderedMap κ ν lt} {key : κ} (absent : key ∉ m.keys) :
    m.erase key = m := by
  apply eq_of_find?_eq
  intro other
  rw [find?_erase]
  split
  · rename_i same
    rw [same, find?_eq_none.mpr absent]
  · rfl

/-- A map's elements are those under one key and those of the map without it. -/
theorem collect_perm (m : OrderedMap κ ν lt) (content : κ → ν → List α) (key : κ) :
    (m.collect content).Perm (m.bucket content key ++ (m.erase key).collect content) := by
  cases found : m.find? key with
  | none =>
    have absent := find?_eq_none.mp found
    rw [bucket_of_absent absent, erase_of_absent absent]
    exact List.Perm.refl _
  | some value =>
    obtain ⟨front, back, shape⟩ := append_of_mem (find?_eq_some.mp found)
    rw [bucket, found, collect, collect, erase_middle shape, shape, List.flatMap_append,
      List.flatMap_append, flatMap_cons]
    exact perm_append_comm_assoc _ _ _

theorem collect_erase {m : OrderedMap κ ν lt} {content : κ → ν → List α} {key : κ}
    (vacant : m.bucket content key = []) : (m.erase key).collect content = m.collect content := by
  rw [collect_eq, collect_eq, ← flatMap_keys_erase m key vacant]
  apply flatMap_congr
  intro other member
  rw [bucket_erase]
  split
  · rename_i same
    rw [same, vacant]
  · rfl

section Filed

variable {keyOf : α → κ} {m : OrderedMap κ ν lt} {content : κ → ν → List α}

theorem bucket_filed (filed : ∀ entry ∈ m.entries, ∀ x ∈ content entry.1 entry.2, keyOf x = entry.1)
    (key : κ) : ∀ x ∈ m.bucket content key, keyOf x = key := by
  intro x inside
  cases found : m.find? key with
  | none =>
    rw [bucket, found] at inside
    cases inside
  | some value =>
    rw [bucket, found] at inside
    exact filed (key, value) (find?_eq_some.mp found) x inside

theorem collect_filter_key
    (filed : ∀ entry ∈ m.entries, ∀ x ∈ content entry.1 entry.2, keyOf x = entry.1) (key : κ) :
    (m.collect content).filter (fun x => keyOf x = key) = m.bucket content key := by
  rw [collect_eq]
  by_cases present : key ∈ m.keys
  · exact Buckets.filter_key m.keys_sorted (fun key _ => bucket_filed filed key) present
  · rw [bucket_of_absent present]
    apply filter_eq_nil_iff.mpr
    intro x inside hit
    have place := (Buckets.mem_iff (fun key _ => bucket_filed filed key)).mp inside
    rw [of_decide_eq_true hit] at place
    exact present place.1

end Filed

variable [DecidableRel lt]

theorem bucket_insert (m : OrderedMap κ ν lt) (content : κ → ν → List α) (key other : κ)
    (value : ν) :
    (m.insert key value).bucket content other =
      if other = key then content key value else m.bucket content other := by
  simp only [bucket, find?_insert]
  split
  · rename_i same
    rw [same]
    rfl
  · rfl

theorem erase_insert (m : OrderedMap κ ν lt) (key : κ) (value : ν) :
    (m.insert key value).erase key = m.erase key := by
  apply eq_of_find?_eq
  intro other
  simp only [find?_erase, find?_insert]
  split <;> rfl

theorem mem_keys_insert (m : OrderedMap κ ν lt) (key other : κ) (value : ν) :
    other ∈ (m.insert key value).keys ↔ other = key ∨ other ∈ m.keys := by
  have absent : other ∉ (m.insert key value).keys ↔ ¬ (other = key ∨ other ∈ m.keys) := by
    rw [← find?_eq_none, find?_insert, not_or, ← find?_eq_none]
    by_cases same : other = key <;> simp [same]
  exact not_iff_not.mp absent

theorem mem_insert_entries {m : OrderedMap κ ν lt} {key : κ} {value : ν} {entry : κ × ν}
    (member : entry ∈ (m.insert key value).entries) :
    entry = (key, value) ∨ (entry ∈ m.entries ∧ entry.1 ≠ key) := by
  have found := find?_eq_some.mpr member
  rw [find?_insert] at found
  split at found
  · rename_i same
    exact Or.inl (Prod.ext same (Option.some.inj found).symm)
  · rename_i differ
    exact Or.inr ⟨find?_eq_some.mp found, differ⟩

/-- The entries of a map in which a rewritten value is dropped under a condition. -/
theorem mem_insert_erase_if {dropped : Prop} [Decidable dropped] {m : OrderedMap κ ν lt} {key : κ}
    {value : ν} {entry : κ × ν}
    (member : entry ∈ (if dropped then (m.insert key value).erase key
      else m.insert key value).entries) :
    (entry = (key, value) ∧ ¬ dropped) ∨ (entry ∈ m.entries ∧ entry.1 ≠ key) := by
  split at member
  · obtain ⟨inserted, differ⟩ := mem_filter.mp member
    have apart : entry.1 ≠ key := by simpa using differ
    rcases mem_insert_entries inserted with same | old
    · exact absurd (congrArg Prod.fst same) apart
    · exact Or.inr old
  · rename_i kept
    exact (mem_insert_entries member).imp_left (fun same => ⟨same, kept⟩)

/-- Opening an empty bucket does not change the collection. -/
theorem flatMap_keys_insert (m : OrderedMap κ ν lt) (key : κ) (value : ν) {fill : κ → List α}
    (vacant : key ∉ m.keys → fill key = []) :
    (m.insert key value).keys.flatMap fill = m.keys.flatMap fill := by
  by_cases present : key ∈ m.keys
  · have same : (m.insert key value).keys = m.keys := place_keys_of_mem m.sorted present
    rw [same]
  · rw [← flatMap_keys_erase _ key (vacant present), erase_insert, erase_of_absent present]

section Update

variable {m : OrderedMap κ ν lt}

/-- Writing back a value with one element more at its end, while the other
values keep their elements, is insertion behind equal and smaller keys. -/
theorem collect_insert_append (keyOf : α → κ) (content content' : κ → ν → List α) (x : α) {value : ν}
    (filed : ∀ entry ∈ m.entries, ∀ y ∈ content entry.1 entry.2, keyOf y = entry.1)
    (joined : content' (keyOf x) value = m.bucket content (keyOf x) ++ [x])
    (others : ∀ entry ∈ m.entries, entry.1 ≠ keyOf x →
      content' entry.1 entry.2 = content entry.1 entry.2) :
    (m.insert (keyOf x) value).collect content' =
      (m.collect content).orderedInsert (fun a b => lt (keyOf a) (keyOf b)) x := by
  rw [collect_eq, collect_eq,
    ← flatMap_keys_insert m (keyOf x) value (fun absent => bucket_of_absent absent)]
  apply Buckets.flatMap_append (keys_sorted _) (fun key _ => bucket_filed filed key)
  · exact (mem_keys_insert _ _ _ _).mpr (Or.inl rfl)
  · rw [bucket_insert, if_pos rfl, joined]
  · intro key member differ
    rw [bucket_insert, if_neg differ]
    obtain ⟨entry, present, rfl⟩ :=
      mem_map.mp (((mem_keys_insert _ _ _ _).mp member).resolve_left differ)
    rw [bucket_of_mem present, bucket_of_mem present, others entry present differ]

/-- Writing back a value whose elements were filtered or mapped, while the other
values keep theirs under the same map, filters or maps the collection. -/
theorem collect_insert_filterMap {β : Type} (content : κ → ν → List α) (content' : κ → ν → List β)
    (f : α → Option β) {key : κ} {value : ν}
    (changed : content' key value = (m.bucket content key).filterMap f)
    (others : ∀ entry ∈ m.entries, entry.1 ≠ key →
      content' entry.1 entry.2 = (content entry.1 entry.2).filterMap f) :
    (m.insert key value).collect content' = (m.collect content).filterMap f := by
  rw [collect_eq, collect_eq,
    ← flatMap_keys_insert m key value (fun absent => bucket_of_absent absent),
    filterMap_flatMap]
  apply flatMap_congr
  intro other member
  rw [bucket_insert]
  split
  · rename_i same
    rw [same, changed]
  · rename_i differ
    obtain ⟨entry, present, rfl⟩ :=
      mem_map.mp (((mem_keys_insert _ _ _ _).mp member).resolve_left differ)
    rw [bucket_of_mem present, bucket_of_mem present, others entry present differ]

end Update

end OrderedMap
