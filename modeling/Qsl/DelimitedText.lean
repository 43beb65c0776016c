import Mathlib.Logic.Function.Basic
import Mathlib.Data.List.Basic

/- Texts that are cut into pieces by a stop letter: the search for a letter, the text of a list of
pieces, and what becomes of the last piece when one letter of the text is changed. -/
namespace DelimitedText

open List

variable {α β : Type}

section Find

variable [DecidableEq β]

/-- The first place of a letter, from a position on. -/
def findFrom (text : List β) (sought : β) (pos : Nat) : Option Nat :=
  ((text.drop pos).findIdx? fun letter => decide (letter = sought)).map (pos + ·)

theorem le_findFrom {text : List β} {sought : β} {pos i : Nat}
    (found : findFrom text sought pos = some i) : pos ≤ i := by
  obtain ⟨j, -, rfl⟩ := Option.map_eq_some_iff.mp found
  exact Nat.le_add_right pos j

theorem findIdx?_iff {text : List β} {sought : β} {i : Nat} :
    text.findIdx? (fun letter => decide (letter = sought)) = some i ↔
      ∃ before after, text = before ++ sought :: after ∧ sought ∉ before ∧ before.length = i := by
  induction text generalizing i with
  | nil => simp
  | cons letter text ih =>
    rw [findIdx?_cons]
    by_cases found : letter = sought
    · subst found
      rw [decide_eq_true rfl, if_pos rfl]
      constructor
      · intro first
        cases first
        exact ⟨[], text, rfl, not_mem_nil, rfl⟩
      · rintro ⟨before, after, same, absent, rfl⟩
        cases before with
        | nil => rfl
        | cons other before =>
          cases same
          exact absurd mem_cons_self absent
    · rw [decide_eq_false found, if_neg Bool.false_ne_true, Option.map_eq_some_iff]
      constructor
      · rintro ⟨j, later, rfl⟩
        obtain ⟨before, after, rfl, absent, rfl⟩ := ih.mp later
        refine ⟨letter :: before, after, rfl, ?_, rfl⟩
        intro mem
        cases mem with
        | head => exact found rfl
        | tail _ mem => exact absent mem
      · rintro ⟨before, after, same, absent, rfl⟩
        cases before with
        | nil =>
          cases same
          exact absurd rfl found
        | cons other before =>
          cases same
          exact ⟨before.length,
            ih.mpr ⟨before, after, rfl, fun mem => absent (mem_cons_of_mem _ mem), rfl⟩,
            rfl⟩

/-- A search from behind a first part looks at the rest only. -/
theorem findFrom_iff {front rest : List β} {sought : β} {i : Nat} :
    findFrom (front ++ rest) sought front.length = some i ↔
      ∃ before after, rest = before ++ sought :: after ∧ sought ∉ before ∧
        i = front.length + before.length := by
  rw [findFrom, drop_left, Option.map_eq_some_iff]
  constructor
  · rintro ⟨j, found, rfl⟩
    obtain ⟨before, after, split, absent, rfl⟩ := findIdx?_iff.mp found
    exact ⟨before, after, split, absent, rfl⟩
  · rintro ⟨before, after, split, absent, rfl⟩
    exact ⟨before.length, findIdx?_iff.mpr ⟨before, after, split, absent, rfl⟩, rfl⟩

end Find

section Join

/-- A text is cut at a letter in one way only, if the first part may not have it. -/
theorem cut_unique {stop : β} {first second rest rest' : List β} (absent : stop ∉ first)
    (absent' : stop ∉ second) (same : first ++ stop :: rest = second ++ stop :: rest') :
    first = second ∧ rest = rest' := by
  induction first generalizing second with
  | nil =>
    cases second with
    | nil =>
      cases same
      exact ⟨rfl, rfl⟩
    | cons letter second =>
      cases same
      exact absurd mem_cons_self absent'
  | cons letter first ih =>
    cases second with
    | nil =>
      cases same
      exact absurd mem_cons_self absent
    | cons other second =>
      simp only [cons_append, List.cons.injEq] at same
      obtain ⟨rfl, same⟩ := same
      obtain ⟨rfl, rfl⟩ := ih (fun mem => absent (mem_cons_of_mem _ mem))
        (fun mem => absent' (mem_cons_of_mem _ mem)) same
      exact ⟨rfl, rfl⟩

/-- The pieces, each with a stop behind it. -/
def join (core : α → List β) (stop : β) (pieces : List α) : List β :=
  pieces.flatMap fun piece => core piece ++ [stop]

variable {core : α → List β} {stop : β}

@[simp] theorem join_nil : join core stop [] = [] := rfl

theorem join_cons (piece : α) (pieces : List α) :
    join core stop (piece :: pieces) = core piece ++ stop :: join core stop pieces := by
  rw [join, flatMap_cons, append_assoc]
  rfl

theorem join_append (pieces others : List α) :
    join core stop (pieces ++ others) = join core stop pieces ++ join core stop others :=
  List.flatMap_append

theorem join_snoc (pieces : List α) (last : α) :
    join core stop (pieces ++ [last]) = join core stop pieces ++ (core last ++ [stop]) := by
  rw [join_append, join_cons]
  rfl

theorem join_ends {pieces : List α} (some : join core stop pieces ≠ []) :
    ∃ front, join core stop pieces = front ++ [stop] := by
  rcases eq_nil_or_concat' pieces with rfl | ⟨before, last, rfl⟩
  · exact absurd rfl some
  · exact ⟨join core stop before ++ core last, by rw [join_snoc, append_assoc]⟩

/-- The pieces of a first part of the text are the first pieces. -/
theorem join_split (clean : ∀ piece, stop ∉ core piece) (distinct : Function.Injective core)
    {first pieces : List α} {rest : List β}
    (same : join core stop pieces = join core stop first ++ rest) :
    ∃ others, pieces = first ++ others ∧ rest = join core stop others := by
  induction first generalizing pieces with
  | nil => exact ⟨pieces, rfl, same.symm⟩
  | cons piece first ih =>
    cases pieces with
    | nil =>
      rw [join_cons, join_nil] at same
      simp at same
    | cons other pieces =>
      rw [join_cons, join_cons, append_assoc, cons_append] at same
      obtain ⟨piece_eq, later⟩ := cut_unique (clean other) (clean piece) same
      obtain ⟨others, rfl, rest_eq⟩ := ih later
      rw [distinct piece_eq]
      exact ⟨others, rfl, rest_eq⟩

/-- A text with one stop, at its end, is one piece. -/
theorem join_single (clean : ∀ piece, stop ∉ core piece) {pieces : List α} {text : List β}
    (absent : stop ∉ text) (same : text ++ [stop] = join core stop pieces) :
    ∃ piece, pieces = [piece] ∧ text = core piece := by
  cases pieces with
  | nil => simp at same
  | cons piece pieces =>
    rw [join_cons] at same
    obtain ⟨text_eq, later⟩ := cut_unique absent (clean piece) same
    cases pieces with
    | nil => exact ⟨piece, rfl, text_eq⟩
    | cons other pieces =>
      rw [join_cons] at later
      simp at later

end Join

section Damage

/-- Two texts that differ in one letter. -/
def DiffersOnce (text text' : List β) : Prop :=
  ∃ before letter letter' after, letter ≠ letter' ∧ text = before ++ letter :: after ∧
    text' = before ++ letter' :: after

section

variable {text text' : List β} (differ : DiffersOnce text text')

include differ

theorem DiffersOnce.symm : DiffersOnce text' text := by
  obtain ⟨before, letter, letter', after, other, split, split'⟩ := differ
  exact ⟨before, letter', letter, after, other.symm, split', split⟩

theorem DiffersOnce.ne : text ≠ text' := by
  obtain ⟨before, letter, letter', after, other, rfl, rfl⟩ := differ
  intro same
  obtain ⟨-, tail⟩ := append_inj same rfl
  cases tail
  exact other rfl

theorem DiffersOnce.length_eq : text.length = text'.length := by
  obtain ⟨before, letter, letter', after, other, rfl, rfl⟩ := differ
  rw [length_append, length_append]
  rfl

end

theorem getElem?_changed {before after : List β} (letter letter' : β) {i : Nat}
    (elsewhere : i ≠ before.length) :
    (before ++ letter :: after)[i]? = (before ++ letter' :: after)[i]? := by
  rcases Nat.lt_or_gt_of_ne elsewhere with earlier | later
  · rw [getElem?_append_left earlier, getElem?_append_left earlier]
  · rw [getElem?_append_right (Nat.le_of_lt later),
      getElem?_append_right (Nat.le_of_lt later)]
    obtain ⟨more, rfl⟩ : ∃ more, i = before.length + (more + 1) := ⟨i - before.length - 1, by omega⟩
    rw [Nat.add_sub_cancel_left]
    rfl

variable {core : α → List β} {stop : β} {pieces pieces' : List α} {last last' : α}

/-- A last piece that starts later was split off by the letter that became a stop. -/
theorem DiffersOnce.split (clean : ∀ piece, stop ∉ core piece) (distinct : Function.Injective core)
    (differ : DiffersOnce (join core stop (pieces ++ [last])) (join core stop (pieces' ++ [last'])))
    (later : (join core stop pieces).length < (join core stop pieces').length) :
    ∃ piece letter, pieces' = pieces ++ [piece] ∧ core last = core piece ++ letter :: core last' := by
  have length := differ.length_eq
  obtain ⟨before, letter, letter', after, -, text, text'⟩ := differ
  obtain ⟨front, ends⟩ := join_ends (ne_nil_of_length_pos (Nat.zero_lt_of_lt later))
  rw [join_snoc, join_snoc, ends] at length
  rw [join_snoc] at text
  rw [join_snoc, ends] at text'
  rw [ends] at later
  simp only [length_append, length_singleton] at length later
  -- The letter that changed is the stop in front of the later piece.
  have place : front.length = before.length := by
    by_contra elsewhere
    have stopped : (before ++ letter' :: after)[front.length]? = some stop := by
      rw [← text', append_assoc, getElem?_append_right (Nat.le_refl _), Nat.sub_self]
      rfl
    rw [← getElem?_changed letter letter' elsewhere, ← text,
      getElem?_append_right (by omega), getElem?_append_left (by omega)] at stopped
    exact clean last (mem_of_getElem? stopped)
  rw [append_assoc, singleton_append] at text'
  obtain ⟨rfl, tail⟩ := append_inj text' place
  simp only [List.cons.injEq] at tail
  obtain ⟨-, rfl⟩ := tail
  rw [← append_assoc, ← cons_append, ← append_assoc] at text
  have text := (append_inj' text rfl).1
  obtain ⟨cut, front_eq, last_eq⟩ : ∃ cut, front = join core stop pieces ++ cut ∧
      core last = cut ++ letter :: core last' := by
    rcases append_eq_append_iff.mp text with found | ⟨cut, longer, last_eq⟩
    · exact found
    · have none : cut = [] := by
        have length := congrArg List.length longer
        rw [length_append] at length
        exact eq_nil_of_length_eq_zero (by omega)
      subst none
      exact ⟨[], by rw [append_nil, longer, append_nil], last_eq.symm⟩
  rw [front_eq, append_assoc] at ends
  obtain ⟨others, rfl, rest⟩ := join_split clean distinct ends
  have absent : stop ∉ cut := by
    intro mem
    refine clean last ?_
    rw [last_eq]
    exact mem_append_left _ mem
  obtain ⟨piece, rfl, rfl⟩ := join_single clean absent rest
  exact ⟨piece, letter, rfl, last_eq⟩

/-- A last piece that starts at the same place is the same, or all before it is. -/
theorem DiffersOnce.aligned
    (differ : DiffersOnce (join core stop (pieces ++ [last])) (join core stop (pieces' ++ [last'])))
    (same : (join core stop pieces).length = (join core stop pieces').length) :
    (join core stop pieces = join core stop pieces' ∧ (core last).length = (core last').length) ∨
      (core last = core last' ∧ DiffersOnce (join core stop pieces) (join core stop pieces')) := by
  have length := differ.length_eq
  obtain ⟨before, letter, letter', after, other, text, text'⟩ := differ
  rw [join_snoc, join_snoc] at length
  rw [join_snoc] at text text'
  simp only [length_append, length_singleton] at length
  rcases append_eq_append_iff.mp text with ⟨cut, rfl, rest⟩ | ⟨cut, front, rest⟩
  · left
    rw [append_assoc] at text'
    obtain ⟨front, -⟩ := append_inj text' same.symm
    exact ⟨front.symm, by omega⟩
  · cases cut with
    | nil =>
      left
      rw [append_nil] at front
      obtain ⟨front', -⟩ := append_inj text' (by rw [← same, front])
      exact ⟨by rw [front, front'], by omega⟩
    | cons first cut =>
      right
      simp only [cons_append, List.cons.injEq] at rest
      obtain ⟨rfl, rfl⟩ := rest
      have text' : join core stop pieces' ++ (core last' ++ [stop]) =
          (before ++ letter' :: cut) ++ (core last ++ [stop]) := by
        rw [text', append_assoc, cons_append]
      have length' : (join core stop pieces').length = (before ++ letter' :: cut).length := by
        rw [← same, front, length_append, length_append]
        rfl
      obtain ⟨front', rest⟩ := append_inj text' length'
      exact ⟨(append_inj' rest rfl).1.symm, before, letter, letter', cut, other, front, front'⟩

end Damage

end DelimitedText
