import Mathlib.Logic.Relation
import Mathlib.Tactic.Common

/- Streams of self-delimiting frames. A decoder reads one frame off the front of a
byte string and answers its value and size, or why it cannot. -/
namespace FrameScan

open List

variable {β α ε : Type}

/-- A decoder that accepts exactly the encodings of the values that fit, whatever
follows them. -/
structure Frames (decode : List β → Except ε (α × Nat)) (encode : α → List β) (Fits : α → Prop) :
    Prop where
  nonempty : ∀ value, encode value ≠ []
  decodes : ∀ value rest, Fits value →
    decode (encode value ++ rest) = .ok (value, (encode value).length)
  encodes : ∀ bytes value size, decode bytes = .ok (value, size) →
    Fits value ∧ size ≤ bytes.length ∧ encode value = bytes.take size

/-- Scanning the bytes from the front gives the values, the error that ended it, if
one did, and the size of what was read. -/
inductive Scan (decode : List β → Except ε (α × Nat)) :
    List β → List α → Option ε → Nat → Prop where
  | clean : Scan decode [] [] none 0
  | stop {bytes : List β} {error : ε} (more : bytes ≠ []) (failed : decode bytes = .error error) :
      Scan decode bytes [] (some error) 0
  | next {bytes : List β} {value : α} {size : Nat} {values : List α} {error : Option ε} {valid : Nat}
      (read : decode bytes = .ok (value, size))
      (rest : Scan decode (bytes.drop size) values error valid) :
      Scan decode bytes (value :: values) error (size + valid)

/-- One whole frame takes the offset from one boundary to the next. -/
def Step (decode : List β → Except ε (α × Nat)) (bytes : List β) (offset next : Nat) : Prop :=
  ∃ value size, decode (bytes.drop offset) = .ok (value, size) ∧ next = offset + size

/-- The offsets that whole frames lead to. -/
def Walk (decode : List β → Except ε (α × Nat)) (bytes : List β) : Nat → Nat → Prop :=
  Relation.ReflTransGen (Step decode bytes)

section Scan

variable {decode : List β → Except ε (α × Nat)} {encode : α → List β} {Fits : α → Prop}
variable {bytes : List β} {values others : List α} {error error' : Option ε} {valid valid' : Nat}

section

variable (frames : Frames decode encode Fits)

include frames

theorem Frames.size_eq {value : α} {size : Nat} (read : decode bytes = .ok (value, size)) :
    size = (encode value).length ∧ 0 < size := by
  obtain ⟨_, within, taken⟩ := frames.encodes bytes value size read
  have length : (encode value).length = size := by
    rw [taken, length_take]
    omega
  have positive := length_pos_iff.mpr (frames.nonempty value)
  exact ⟨length.symm, by omega⟩

/-- No frame is read off an empty string. -/
theorem Frames.not_empty {value : α} {size : Nat} (read : decode bytes = .ok (value, size)) :
    bytes ≠ [] := by
  intro empty
  obtain ⟨_, within, _⟩ := frames.encodes bytes value size read
  have positive := (frames.size_eq read).2
  rw [empty, length_nil] at within
  omega

theorem Scan.unique (scan : Scan decode bytes values error valid)
    (scan' : Scan decode bytes others error' valid') :
    values = others ∧ error = error' ∧ valid = valid' := by
  induction scan generalizing others error' valid' with
  | clean =>
    cases scan' with
    | clean => exact ⟨rfl, rfl, rfl⟩
    | stop more => exact absurd rfl more
    | next read => exact absurd rfl (frames.not_empty read)
  | stop more failed =>
    cases scan' with
    | clean => exact absurd rfl more
    | stop _ failed' =>
      rw [failed] at failed'
      cases failed'
      exact ⟨rfl, rfl, rfl⟩
    | next read =>
      rw [failed] at read
      cases read
  | next read rest ih =>
    cases scan' with
    | clean => exact absurd rfl (frames.not_empty read)
    | stop _ failed =>
      rw [failed] at read
      cases read
    | next read' rest' =>
      rw [read] at read'
      cases read'
      obtain ⟨rfl, rfl, rfl⟩ := ih rest'
      exact ⟨rfl, rfl, rfl⟩

/-- What was read is the encoding of the values. -/
theorem Scan.encodes (scan : Scan decode bytes values error valid) :
    valid ≤ bytes.length ∧ values.flatMap encode = bytes.take valid ∧
      ∀ value ∈ values, Fits value := by
  induction scan with
  | clean => exact ⟨Nat.le_refl _, rfl, fun value member => by cases member⟩
  | stop _ _ => exact ⟨Nat.zero_le _, rfl, fun value member => by cases member⟩
  | @next bytes value size values error valid read rest ih =>
    obtain ⟨fits, within, taken⟩ := frames.encodes _ _ _ read
    obtain ⟨restWithin, restTaken, restFits⟩ := ih
    rw [length_drop] at restWithin
    refine ⟨by omega, ?_, ?_⟩
    · rw [flatMap_cons, taken, restTaken, take_add]
    · intro other member
      rcases mem_cons.mp member with rfl | later
      · exact fits
      · exact restFits other later

/-- Encodings in front of a string are read off it. -/
theorem Scan.prepend {front : List α} (fit : ∀ value ∈ front, Fits value)
    (scan : Scan decode bytes values error valid) :
    Scan decode (front.flatMap encode ++ bytes) (front ++ values) error
      ((front.flatMap encode).length + valid) := by
  induction front with
  | nil => simpa using scan
  | cons value front ih =>
    have rest := ih (fun other member => fit other (mem_cons_of_mem _ member))
    have read := frames.decodes value (front.flatMap encode ++ bytes)
      (fit value mem_cons_self)
    rw [flatMap_cons, append_assoc, length_append, Nat.add_assoc, cons_append]
    apply Scan.next read
    rw [drop_left]
    exact rest

theorem scan_encodings {values : List α} (fit : ∀ value ∈ values, Fits value) :
    Scan decode (values.flatMap encode) values none (values.flatMap encode).length := by
  have scan := Scan.prepend frames fit (Scan.clean : Scan decode [] [] none 0)
  simpa using scan

/-- The part that was read scans cleanly on its own. -/
theorem Scan.take (scan : Scan decode bytes values error valid) :
    Scan decode (bytes.take valid) values none valid := by
  obtain ⟨within, taken, fit⟩ := scan.encodes frames
  have whole := scan_encodings frames fit
  rw [taken, length_take, Nat.min_eq_left within] at whole
  exact whole

end

/-- Where the scan ends, the string ends or does not start with a frame. -/
theorem Scan.stops (scan : Scan decode bytes values error valid) :
    (error = none ∧ bytes.drop valid = []) ∨
      ∃ reason, error = some reason ∧ bytes.drop valid ≠ [] ∧
        decode (bytes.drop valid) = .error reason := by
  induction scan with
  | clean => exact Or.inl ⟨rfl, rfl⟩
  | stop more failed => exact Or.inr ⟨_, rfl, more, failed⟩
  | next read rest ih =>
    rw [drop_drop] at ih
    exact ih

end Scan

section Walk

variable {decode : List β → Except ε (α × Nat)} {encode : α → List β} {Fits : α → Prop}
variable {bytes : List β} {values : List α} {error : Option ε} {valid : Nat}

theorem step_unique {offset next next' : Nat} (step : Step decode bytes offset next)
    (step' : Step decode bytes offset next') : next = next' := by
  obtain ⟨value, size, read, rfl⟩ := step
  obtain ⟨value', size', read', rfl⟩ := step'
  rw [read] at read'
  cases read'
  rfl

theorem Walk.le {offset next : Nat} (walk : Walk decode bytes offset next) : offset ≤ next := by
  induction walk with
  | refl => exact Nat.le_refl _
  | tail _ step ih =>
    obtain ⟨_, _, _, rfl⟩ := step
    omega

/-- Two walks from one offset meet: one continues the other. -/
theorem Walk.total {offset near far : Nat} (walk : Walk decode bytes offset near)
    (walk' : Walk decode bytes offset far) :
    Walk decode bytes near far ∨ Walk decode bytes far near :=
  Relation.ReflTransGen.total_of_right_unique (fun _ _ _ => step_unique) walk walk'

/-- The scan ends at an offset that whole frames lead to. -/
theorem Scan.walk {start : Nat} (scan : Scan decode (bytes.drop start) values error valid) :
    Walk decode bytes start (start + valid) := by
  generalize source : bytes.drop start = rest at scan
  induction scan generalizing start with
  | next read _ ih =>
    rw [← source] at read
    rw [← Nat.add_assoc]
    refine Relation.ReflTransGen.head ⟨_, _, read, rfl⟩ (ih ?_)
    rw [← source, drop_drop]
  | _ => exact Relation.ReflTransGen.refl

/-- No whole frame starts where a scan has ended. -/
theorem Scan.no_step (frames : Frames decode encode Fits) {start : Nat}
    (scan : Scan decode (bytes.drop start) values error valid) {next : Nat} :
    ¬ Step decode bytes (start + valid) next := by
  rintro ⟨value, size, read, _⟩
  rcases scan.stops with ⟨_, empty⟩ | ⟨reason, _, _, failed⟩
  · rw [drop_drop] at empty
    exact frames.not_empty read empty
  · rw [drop_drop] at failed
    rw [failed] at read
    cases read

/-- Whole frames lead no further than the scan. -/
theorem Scan.walk_end (frames : Frames decode encode Fits) {start offset : Nat}
    (scan : Scan decode (bytes.drop start) values error valid)
    (walk : Walk decode bytes start offset) : Walk decode bytes offset (start + valid) := by
  rcases Walk.total walk scan.walk with onward | beyond
  · exact onward
  · cases beyond.cases_head with
    | inl same => exact same ▸ Relation.ReflTransGen.refl
    | inr further =>
      obtain ⟨_, step, _⟩ := further
      exact absurd step (scan.no_step frames)

/-- Encodings at some offset are walked over. -/
theorem walk_encodings (frames : Frames decode encode Fits) (front : List β) {middle : List α}
    (back : List β) (fit : ∀ value ∈ middle, Fits value) :
    Walk decode (front ++ middle.flatMap encode ++ back) front.length
      (front.length + (middle.flatMap encode).length) := by
  induction middle generalizing front with
  | nil => exact Relation.ReflTransGen.refl
  | cons value middle ih =>
    have rest := ih (front ++ encode value)
      (fun other member => fit other (mem_cons_of_mem _ member))
    simp only [flatMap_cons, length_append, append_assoc, Nat.add_assoc] at rest ⊢
    refine Relation.ReflTransGen.head ⟨value, (encode value).length, ?_, rfl⟩ ?_
    · rw [drop_left]
      exact frames.decodes value _ (fit value mem_cons_self)
    · exact rest

end Walk

end FrameScan
