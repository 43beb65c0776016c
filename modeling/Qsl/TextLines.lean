import Qsl.DelimitedText

/- Texts made of lines and lines made of words: writing them, and reading them back line by line
with a reader that may fail. -/
namespace TextLines

open List

variable {β : Type}

/-- The pieces between blanks, without the empty ones. -/
def words [DecidableEq β] (blank : β) (line : List β) : List (List β) :=
  (line.splitOn blank).filter (fun token => token ≠ [])

/-- The words with one blank between two of them. -/
def unwords (blank : β) (tokens : List (List β)) : List β := [blank].intercalate tokens

theorem words_unwords [DecidableEq β] {blank : β} {tokens : List (List β)}
    (proper : ∀ token ∈ tokens, token ≠ [] ∧ blank ∉ token) :
    words blank (unwords blank tokens) = tokens := by
  rcases tokens with - | ⟨token, tokens⟩
  · simp [words, unwords, List.intercalate, List.splitOn]
  · rw [words, unwords, splitOn_intercalate blank (fun token member => (proper token member).2)
      (cons_ne_nil _ _), filter_eq_self]
    intro token member
    exact decide_eq_true (proper token member).1

theorem unwords_cons (blank : β) (token next : List β) (tokens : List (List β)) :
    unwords blank (token :: next :: tokens) = token ++ blank :: unwords blank (next :: tokens) := by
  simp [unwords, List.intercalate]

@[simp] theorem unwords_singleton (blank : β) (token : List β) : unwords blank [token] = token := by
  simp [unwords, List.intercalate]

theorem not_mem_unwords {blank letter : β} (other : letter ≠ blank) {tokens : List (List β)}
    (absent : ∀ token ∈ tokens, letter ∉ token) : letter ∉ unwords blank tokens := by
  induction tokens with
  | nil => simp [unwords, List.intercalate]
  | cons token tokens ih =>
    obtain ⟨first, others⟩ := forall_mem_cons.mp absent
    cases tokens with
    | nil =>
      rw [unwords_singleton]
      exact first
    | cons next tokens =>
      rw [unwords_cons, mem_append, mem_cons]
      rintro (mem | same | mem)
      · exact first mem
      · exact other same
      · exact ih others mem

/-- The lines that a text is read in. Each ends at a stop; what is left behind the last stop is a
line of its own. -/
def inputLines [DecidableEq β] (stop : β) (text : List β) : List (List β) :=
  let pieces := text.splitOn stop
  if pieces.getLast? = some [] then pieces.dropLast else pieces

theorem join_eq_intercalate {α : Type} (core : α → List β) (stop : β) (pieces : List α) :
    DelimitedText.join core stop pieces = [stop].intercalate (pieces.map core ++ [[]]) := by
  induction pieces with
  | nil => simp [List.intercalate]
  | cons piece pieces ih =>
    rw [DelimitedText.join_cons, ih]
    cases pieces with
    | _ => simp [List.intercalate]

theorem inputLines_join [DecidableEq β] {α : Type} {core : α → List β} {stop : β} {pieces : List α}
    (clean : ∀ piece ∈ pieces, stop ∉ core piece) :
    inputLines stop (DelimitedText.join core stop pieces) = pieces.map core := by
  have whole : (DelimitedText.join core stop pieces).splitOn stop = pieces.map core ++ [[]] := by
    rw [join_eq_intercalate]
    refine splitOn_intercalate stop ?_ (append_ne_nil_of_right_ne_nil _ (by simp))
    intro line member
    rcases mem_append.mp member with mapped | empty
    · obtain ⟨piece, listed, rfl⟩ := mem_map.mp mapped
      exact clean piece listed
    · rw [mem_singleton.mp empty]
      exact not_mem_nil
  rw [inputLines, whole]
  simp

/- A reader takes the lines one after the other. -/
section Reader

variable {ε σ ι : Type} {read : σ → ι → Except ε σ}

/-- Lines that are skipped leave the reader where it was. -/
theorem foldlM_skip {state : σ} {inputs : List ι}
    (skip : ∀ input ∈ inputs, read state input = .ok state) :
    inputs.foldlM read state = .ok state := by
  induction inputs with
  | nil => rfl
  | cons input inputs ih =>
    obtain ⟨first, others⟩ := forall_mem_cons.mp skip
    rw [foldlM_cons, first]
    exact ih others

/-- A line that no state can read stops the reader. -/
theorem foldlM_stuck {inputs : List ι} {input : ι} (member : input ∈ inputs)
    (stuck : ∀ state state', read state input ≠ .ok state') (state state' : σ) :
    inputs.foldlM read state ≠ .ok state' := by
  induction inputs generalizing state with
  | nil => cases member
  | cons first inputs ih =>
    rw [foldlM_cons]
    cases next : read state first with
    | error reason => exact fun same => by cases same
    | ok after =>
      rcases mem_cons.mp member with rfl | later
      · exact absurd next (stuck state after)
      · exact ih later after

/-- Blocks of lines, each read as a whole. -/
theorem foldlM_flatMap {κ : Type} {blocks : List κ} {lines : κ → List ι} {after : σ → κ → σ}
    (block : ∀ item ∈ blocks, ∀ state, (lines item).foldlM read state = .ok (after state item))
    (state : σ) :
    (blocks.flatMap lines).foldlM read state = .ok (blocks.foldl after state) := by
  induction blocks generalizing state with
  | nil => rfl
  | cons item blocks ih =>
    obtain ⟨first, others⟩ := forall_mem_cons.mp block
    rw [flatMap_cons, foldlM_append, first state]
    exact ih others _

/-- A reader of words over lines that were written as words. -/
theorem foldlM_words [DecidableEq β] {blank : β} {read : σ → List (List β) → Except ε σ}
    {lines : List (List (List β))}
    (proper : ∀ tokens ∈ lines, ∀ token ∈ tokens, token ≠ [] ∧ blank ∉ token) (state : σ) :
    (lines.map (unwords blank)).foldlM (fun state line => read state (words blank line)) state =
      lines.foldlM read state := by
  induction lines generalizing state with
  | nil => rfl
  | cons tokens lines ih =>
    obtain ⟨first, others⟩ := forall_mem_cons.mp proper
    rw [map_cons, foldlM_cons, foldlM_cons, words_unwords first]
    exact congrArg _ (funext (ih others))

end Reader

/- Texts of bytes. -/

abbrev Text := List UInt8

/-- The bytes of an ASCII string. -/
def text (s : String) : Text := s.toList.map (fun c => UInt8.ofNat c.toNat)

def space : UInt8 := 32

def newline : UInt8 := 10

end TextLines
