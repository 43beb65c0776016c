import Qsl.EventLogDamage

namespace Qsl.EventLog

open List
open FrameScan

variable {reason : LogError}

/-- Bytes that look like an interrupted final append: a part of a header, or one whole
frame with a wrong checksum and nothing behind it. -/
def Torn (rest : List UInt8) : Prop :=
  (0 < rest.length ∧ rest.length < recordHeaderSize) ∨
    (recordHeaderSize + declaredSize rest + checksumSize = rest.length ∧
      declaredSize rest ≤ maxPayload ∧
      UInt32.ofNat (BigEndian.load
          ((rest.drop (recordHeaderSize + declaredSize rest)).take checksumSize)) ≠
        checksum (rest.take (recordHeaderSize + declaredSize rest)))

instance (rest : List UInt8) : Decidable (Torn rest) :=
  inferInstanceAs (Decidable (_ ∨ _))

section Classify

variable {bytes rest : List UInt8} {valid : Nat}

/-- The four ways in which `decode_record` fails. -/
theorem decodeFrame_error (failed : decodeFrame rest = .error reason) :
    (reason = .truncated ∧ rest.length < recordHeaderSize) ∨
      (reason = .payloadTooLarge ∧ recordHeaderSize ≤ rest.length ∧
        maxPayload < declaredSize rest) ∨
      (reason = .truncated ∧ recordHeaderSize ≤ rest.length ∧
        rest.length < recordHeaderSize + declaredSize rest + checksumSize) ∨
      (reason = .badChecksum ∧ declaredSize rest ≤ maxPayload ∧
        recordHeaderSize + declaredSize rest + checksumSize ≤ rest.length ∧
        UInt32.ofNat (BigEndian.load
            ((rest.drop (recordHeaderSize + declaredSize rest)).take checksumSize)) ≠
          checksum (rest.take (recordHeaderSize + declaredSize rest))) := by
  unfold decodeFrame at failed
  split at failed
  · rename_i short
    cases failed
    exact Or.inl ⟨rfl, short⟩
  · rename_i header
    have complete := Nat.not_lt.mp header
    dsimp only at failed
    split at failed
    · rename_i large
      cases failed
      exact Or.inr (Or.inl ⟨rfl, complete, large⟩)
    · rename_i small
      split at failed
      · rename_i short
        cases failed
        exact Or.inr (Or.inr (Or.inl ⟨rfl, complete, short⟩))
      · rename_i whole
        split at failed
        · rename_i wrong
          cases failed
          exact Or.inr (Or.inr (Or.inr ⟨rfl, Nat.not_lt.mp small, Nat.not_lt.mp whole, wrong⟩))
        · cases failed

theorem Torn.fails (torn : Torn rest) : ∃ reason, decodeFrame rest = .error reason := by
  rcases torn with ⟨_, short⟩ | ⟨whole, small, wrong⟩
  · refine ⟨.truncated, ?_⟩
    rw [decodeFrame, if_pos short]
  · refine ⟨.badChecksum, ?_⟩
    have header : recordHeaderSize ≤ rest.length := by omega
    rw [decodeFrame_whole header rfl small (Nat.le_of_eq whole), if_pos wrong]

theorem Torn.ne_nil (torn : Torn rest) : rest ≠ [] := by
  apply ne_nil_of_length_pos
  rcases torn with ⟨some, _⟩ | ⟨whole, _⟩
  · exact some
  · have header : recordHeaderSize = 22 := rfl
    omega

/-- A failed scan is classified as torn exactly when what is left looks so. -/
theorem classifyTail_torn (more : bytes.drop valid ≠ [])
    (failed : decodeFrame (bytes.drop valid) = .error reason) :
    classifyTail bytes reason valid = .tornTail ↔ Torn (bytes.drop valid) := by
  have within := drop_ne_nil.mp more
  have left : (bytes.drop valid).length = bytes.length - valid := length_drop
  rcases decodeFrame_error failed with ⟨rfl, short⟩ | ⟨rfl, complete, large⟩ |
    ⟨rfl, complete, short⟩ | ⟨rfl, small, whole, wrong⟩
  · rw [left] at short
    simp only [classifyTail, truncatedFailureConfinedToPartialHeader, short, decide_true, if_true,
      true_iff]
    exact Or.inl ⟨by omega, by omega⟩
  · simp only [classifyTail, reduceCtorEq, false_iff]
    rintro (⟨_, part⟩ | ⟨_, small, _⟩)
    · omega
    · omega
  · have full : ¬ bytes.length - valid < recordHeaderSize := by omega
    simp only [classifyTail, truncatedFailureConfinedToPartialHeader, full, decide_false,
      Bool.false_eq_true, if_false, reduceCtorEq, false_iff]
    rintro (⟨_, part⟩ | ⟨ended, _⟩)
    · omega
    · omega
  · simp only [classifyTail, checksumFailureConfinedToTail, beq_iff_eq]
    by_cases ended : valid + (recordHeaderSize + declaredSize (bytes.drop valid) + checksumSize) =
        bytes.length
    · simp only [ended, if_true, true_iff]
      exact Or.inr ⟨by omega, small, wrong⟩
    · simp only [ended, if_false, reduceCtorEq, false_iff]
      rintro (⟨_, part⟩ | ⟨exactly, _⟩)
      · omega
      · omega

theorem classifyTail_clean : classifyTail bytes reason valid = .cleanTail ↔ reason = .none := by
  cases reason <;> simp only [classifyTail, reduceCtorEq, iff_false]
  · split <;> simp
  · split <;> simp

/-- Recovery finds a torn tail exactly when what it leaves unread looks so. -/
theorem recoverLog_torn (bytes : List UInt8) :
    (recoverLog bytes).tail = .tornTail ↔
      Torn (bytes.drop (recoverLog bytes).validBytes) := by
  obtain ⟨records, error, valid, scan⟩ := exists_scan bytes
  rw [recoverLog_eq scan]
  rcases scan.stops with ⟨rfl, empty⟩ | ⟨reason, rfl, more, failed⟩
  · simp only [Option.getD_none, classifyTail, reduceCtorEq, false_iff, empty]
    decide
  · exact classifyTail_torn more failed

theorem recoverLog_error (bytes : List UInt8) : (recoverLog bytes).error = .none := by
  obtain ⟨records, error, valid, scan⟩ := exists_scan bytes
  rw [recoverLog_eq scan]

theorem recoverLog_walk {start : Nat} (begun : Walk decodeFrame bytes 0 start) :
    Walk decodeFrame bytes start (recoverLog bytes).validBytes := by
  obtain ⟨records, error, valid, scan⟩ := exists_scan bytes
  have whole : Scan decodeFrame (bytes.drop 0) records error valid := scan
  have onward := whole.walk_end frames begun
  rw [Nat.zero_add] at onward
  rw [recoverLog_eq scan]
  exact onward

/-- Whole frames lead to what looks torn only where recovery ends. -/
theorem recoverLog_torn_of_walk {start offset : Nat} (begun : Walk decodeFrame bytes 0 start)
    (walk : Walk decodeFrame bytes start offset) (torn : Torn (bytes.drop offset)) :
    (recoverLog bytes).validBytes = offset := by
  have onward := recoverLog_walk (Relation.ReflTransGen.trans begun walk)
  cases onward.cases_head with
  | inl same => exact same.symm
  | inr further =>
    obtain ⟨_, ⟨_, _, read, _⟩, _⟩ := further
    obtain ⟨reason, failed⟩ := torn.fails
    rw [failed] at read
    cases read

end Classify

/-- The log of the records with bytes altered within the encoding of one of them only. -/
structure DamagedAt (records : List LogRecord) (index : Nat) (buffer : List UInt8) : Prop where
  before : buffer.take (boundaryAt records index) =
    (records.flatMap recordBytes).take (boundaryAt records index)
  behind : buffer.drop (boundaryAt records (index + 1)) =
    (records.flatMap recordBytes).drop (boundaryAt records (index + 1))

section Damage

variable {records : List LogRecord} {index : Nat} {buffer : List UInt8}

theorem repairLogFile_untorn {recovery : LogRecovery} (whole : recovery.tail ≠ .tornTail)
    (resized synced : Bool) : (repairLogFile buffer recovery resized synced).1 = buffer := by
  unfold repairLogFile
  split
  · rfl
  · rename_i usable
    have clean : recovery.tail = .cleanTail := by
      cases tail : recovery.tail with
      | cleanTail => rfl
      | tornTail => exact absurd tail whole
      | corrupt => exact absurd (Or.inr tail) usable
    rw [if_pos clean]

theorem repairLogFile_torn {recovery : LogRecovery} (read : recovery.error = .none)
    (torn : recovery.tail = .tornTail) (synced : Bool) :
    repairLogFile buffer recovery true synced = (buffer.take recovery.validBytes, synced) := by
  simp [repairLogFile, read, torn]

/-- The undamaged end of the log fixes the length. -/
theorem DamagedAt.size (inner : index + 1 < records.length)
    (damaged : DamagedAt records index buffer) :
    buffer.length = (records.flatMap recordBytes).length := by
  have last := recordBytes_length records[index + 1]
  have total := congrArg List.length (log_split inner)
  rw [length_append, length_append, ← boundaryAt] at total
  have lengths := congrArg List.length damaged.behind
  rw [length_drop, length_drop] at lengths
  have header : recordHeaderSize = 22 := rfl
  omega

/-- The records in front of the damage are still read. -/
theorem DamagedAt.walk (fit : ∀ record ∈ records, record.Fits)
    (damaged : DamagedAt records index buffer) :
    Walk decodeFrame buffer 0 (boundaryAt records index) := by
  have split : buffer = [] ++ (records.take index).flatMap recordBytes ++
      buffer.drop (boundaryAt records index) := by
    rw [nil_append, ← take_boundary, ← damaged.before, take_append_drop]
  have earlier : ∀ record ∈ records.take index, record.Fits :=
    fun record member => fit record (mem_of_mem_take member)
  have walk := walk_encodings frames [] (buffer.drop (boundaryAt records index)) earlier
  rw [← split, length_nil, Nat.zero_add] at walk
  exact walk

theorem DamagedAt.next (inner : index + 1 < records.length)
    (damaged : DamagedAt records index buffer) :
    boundaryAt records (index + 1) =
        boundaryAt records index + (recordBytes records[index]).length ∧
      boundaryAt records (index + 1) < buffer.length := by
  have last := recordBytes_length records[index + 1]
  have total := congrArg List.length (log_split inner)
  rw [length_append, length_append, ← boundaryAt, ← damaged.size inner] at total
  refine ⟨boundaryAt_succ (Nat.lt_of_succ_lt inner), ?_⟩
  have header : recordHeaderSize = 22 := rfl
  omega

section

variable (fit : ∀ record ∈ records, record.Fits) (inner : index + 1 < records.length)
  (damaged : DamagedAt records index buffer)

include fit inner damaged

/-- Past the damage everything is read. -/
theorem DamagedAt.walk_rest :
    Walk decodeFrame buffer (boundaryAt records (index + 1)) buffer.length := by
  have within := Nat.le_of_lt (damaged.next inner).2
  have front : (buffer.take (boundaryAt records (index + 1))).length =
      boundaryAt records (index + 1) := by
    rw [length_take, Nat.min_eq_left within]
  have rest : buffer.drop (boundaryAt records (index + 1)) =
      (records.drop (index + 1)).flatMap recordBytes := by
    rw [damaged.behind, drop_boundary]
  have later : ∀ record ∈ records.drop (index + 1), record.Fits :=
    fun record member => fit record (mem_of_mem_drop member)
  have walk := walk_encodings frames (buffer.take (boundaryAt records (index + 1))) [] later
  rw [append_nil, ← rest, take_append_drop, front, length_drop] at walk
  rw [Nat.add_sub_cancel' within] at walk
  exact walk

/-- Damage that leaves the size field alone is never taken for a torn tail. -/
theorem recoverLog_size_kept (kept : declaredSize (buffer.drop (boundaryAt records index)) =
      records[index].payload.length) : (recoverLog buffer).tail ≠ .tornTail := by
  have begun := damaged.walk fit
  have length := recordBytes_length records[index]
  obtain ⟨next, within⟩ := damaged.next inner
  rw [ne_eq, recoverLog_torn]
  intro torn
  cases (recoverLog_walk begun).cases_head with
  | inl same =>
    rw [← same, Torn, kept, length_drop] at torn
    rcases torn with ⟨_, part⟩ | ⟨ended, _⟩
    · omega
    · omega
  | inr further =>
    obtain ⟨offset, step, _⟩ := further
    obtain ⟨record, size, read, reached⟩ := step
    obtain ⟨payloadSize, declared, _, total, _⟩ := decodeFrame_ok read
    have skipped : offset = boundaryAt records (index + 1) := by
      rw [declared, kept] at total
      omega
    have whole : Walk decodeFrame buffer 0 buffer.length :=
      (begun.tail ⟨record, size, read, reached⟩).trans (skipped ▸ damaged.walk_rest fit inner)
    have ended := (recoverLog_walk whole).le
    exact torn.ne_nil (drop_eq_nil_of_le ended)

end

/-- Repair after damage to one record that is not the last. The buffer is never taken for
torn in front of the last record, and every undamaged byte is kept, exactly when no chain of
whole frames from the damaged record on leads to bytes that look like an interrupted
append. A declared size that spans the rest of the file is enough to break this. -/
theorem repairLogFile_keeps_iff (fit : ∀ record ∈ records, record.payload.length ≤ maxPayload)
    (inner : index + 1 < records.length) (damaged : DamagedAt records index buffer) :
    (¬ ((recoverLog buffer).tail = .tornTail ∧
        (recoverLog buffer).validBytes < boundaryAt records (records.length - 1)) ∧
      ∀ resized synced,
        DamagedAt records index (repairLogFile buffer (recoverLog buffer) resized synced).1) ↔
      ∀ offset, Walk decodeFrame buffer (boundaryAt records index) offset →
        ¬ Torn (buffer.drop offset) := by
  have begun := damaged.walk fit
  constructor
  · rintro ⟨_, kept⟩ offset walk torn
    have ended := recoverLog_torn_of_walk begun walk torn
    have tail : (recoverLog buffer).tail = .tornTail := by
      rw [recoverLog_torn, ended]
      exact torn
    have same := (kept true true).size inner
    rw [repairLogFile_torn (recoverLog_error buffer) tail, ended, ← damaged.size inner,
      length_take] at same
    have more := drop_ne_nil.mp torn.ne_nil
    omega
  · intro untorn
    have whole : (recoverLog buffer).tail ≠ .tornTail := by
      rw [ne_eq, recoverLog_torn]
      exact untorn _ (recoverLog_walk begun)
    refine ⟨fun both => whole both.1, ?_⟩
    intro resized synced
    rw [repairLogFile_untorn whole]
    exact damaged

theorem repairLogFile_keeps_payload :
    let records : List LogRecord := [⟨1, .commandRecord, 0, [7]⟩, ⟨2, .commandRecord, 0, []⟩]
    let buffer := (records.flatMap recordBytes).set 22 8
    (¬ ((recoverLog buffer).tail = .tornTail ∧
          (recoverLog buffer).validBytes < boundaryAt records 1) ∧
        ∀ resized synced,
          DamagedAt records 0 (repairLogFile buffer (recoverLog buffer) resized synced).1) ↔
      ∀ offset, Walk decodeFrame buffer 0 offset → ¬ Torn (buffer.drop offset) := by
  intro records buffer
  exact @repairLogFile_keeps_iff records 0 buffer (by decide) (by decide) ⟨by decide, by decide⟩

/-- Two records without payloads. Changing the low byte of the first one's size field to 26
makes its frame end with the file, so the second record is cut off as a torn tail. -/
theorem repairLogFile_drops_intact :
    ∃ (records : List LogRecord) (buffer : List UInt8),
      records.length = 2 ∧ (∀ record ∈ records, record.payload.length ≤ maxPayload) ∧
      DamagedAt records 0 buffer ∧ (recoverLog buffer).tail = .tornTail ∧
      (recoverLog buffer).validBytes < boundaryAt records 1 ∧
      repairLogFile buffer (recoverLog buffer) true true = ([], true) :=
  ⟨[⟨1, .commandRecord, 0, []⟩, ⟨2, .commandRecord, 0, []⟩],
    ([⟨1, .commandRecord, 0, []⟩, ⟨2, .commandRecord, 0, []⟩].flatMap recordBytes).set 21 26,
    rfl, by decide, ⟨by decide, by decide⟩, by decide +kernel, by decide +kernel,
    by decide +kernel⟩

end Damage

end Qsl.EventLog
