import Qsl.EventLogRecovery

namespace Qsl.EventLog

open List
open FrameScan

section Hash

variable {σ β : Type} {step : σ → β → σ}

theorem foldl_injective (states : ∀ byte, Function.Injective (fun state => step state byte))
    (bytes : List β) : Function.Injective (fun state => bytes.foldl step state) := by
  induction bytes with
  | nil => exact fun _ _ same => same
  | cons byte bytes ih => exact fun _ _ same => states byte (ih same)

/-- A hash whose step loses neither state nor byte tells one changed byte. -/
theorem foldl_set_ne (states : ∀ byte, Function.Injective (fun state => step state byte))
    (inputs : ∀ state, Function.Injective (step state)) {bytes : List β} {position : Nat}
    (inside : position < bytes.length) {byte : β} (changed : bytes[position] ≠ byte) (state : σ) :
    (bytes.set position byte).foldl step state ≠ bytes.foldl step state := by
  intro same
  have split : bytes = bytes.take position ++ bytes[position] :: bytes.drop (position + 1) := by
    rw [getElem_cons_drop, take_append_drop]
  have whole : bytes.foldl step state =
      (bytes.take position ++ bytes[position] :: bytes.drop (position + 1)).foldl step state :=
    congrArg (fun list => list.foldl step state) split
  rw [whole, set_eq_take_append_cons_drop, if_pos inside, foldl_append,
    foldl_append, foldl_cons, foldl_cons] at same
  exact changed (inputs _ (foldl_injective states _ same)).symm

end Hash

/-- The multiplier is odd, so that multiplying by it can be undone. -/
theorem multiplier_inverse (hash : UInt32) : hash * 16777619 * 899433627 = hash := by
  have unit : (16777619 : UInt32) * 899433627 = 1 := by decide
  rw [UInt32.mul_assoc, unit, UInt32.mul_one]

theorem xor_cancel (hash mask : UInt32) : hash ^^^ mask ^^^ mask = hash := by
  rw [UInt32.xor_assoc, UInt32.xor_self, UInt32.xor_zero]

theorem checksumStep_states (byte : UInt8) :
    Function.Injective (fun hash => checksumStep hash byte) := by
  intro hash other same
  have undone := congrArg (· * (899433627 : UInt32)) same
  simp only [checksumStep, multiplier_inverse] at undone
  have unmasked := congrArg (· ^^^ byte.toUInt32) undone
  simp only [xor_cancel] at unmasked
  exact unmasked

theorem checksumStep_inputs (hash : UInt32) : Function.Injective (checksumStep hash) := by
  intro byte other same
  have undone := congrArg (· * (899433627 : UInt32)) same
  simp only [checksumStep, multiplier_inverse] at undone
  have unmasked := congrArg (· ^^^ hash) undone
  simp only [UInt32.xor_comm hash, xor_cancel] at unmasked
  exact UInt8.toUInt32_inj.mp unmasked

theorem checksum_set_ne {bytes : List UInt8} {position : Nat} (inside : position < bytes.length)
    {byte : UInt8} (changed : bytes[position] ≠ byte) :
    checksum (bytes.set position byte) ≠ checksum bytes :=
  foldl_set_ne checksumStep_states checksumStep_inputs inside changed _

section Corrupt

variable {record : LogRecord} {position : Nat} {byte : UInt8} (rest : List UInt8)

theorem slice_set_outside (bytes : List UInt8) {start size : Nat}
    (outside : position < start ∨ start + size ≤ position) :
    ((bytes.set position byte).drop start).take size = (bytes.drop start).take size := by
  rw [drop_set]
  split
  · rfl
  · rw [take_set, set_eq_of_length_le]
    have short := length_take_le size (bytes.drop start)
    omega

/-- A byte changed outside the size field leaves a whole frame whose checksum fails. -/
theorem decodeFrame_set (fits : record.Fits) (inside : position < (recordBytes record).length)
    (changed : (recordBytes record)[position] ≠ byte)
    (outside : position < 18 ∨ 22 ≤ position) :
    declaredSize ((recordBytes record).set position byte ++ rest) = record.payload.length ∧
      decodeFrame ((recordBytes record).set position byte ++ rest) = .error .badChecksum := by
  have length := recordBytes_length record
  have bodyLength := recordBody_length record
  let bytes := recordBytes record ++ rest
  let size := recordHeaderSize + record.payload.length
  have shape : (recordBytes record).set position byte ++ rest = bytes.set position byte := by
    rw [set_append_left _ _ inside]
  have declared : declaredSize (bytes.set position byte) = record.payload.length := by
    rw [declaredSize, slice_set_outside bytes (by omega)]
    exact declaredSize_of_fits rest fits
  have whole : size + checksumSize ≤ (bytes.set position byte).length := by
    rw [length_set, length_append, length]
    omega
  rw [shape, decodeFrame_whole (Nat.le_trans (Nat.le_add_right _ _) (Nat.le_trans
    (Nat.le_add_right _ _) whole)) declared fits whole]
  refine ⟨declared, if_pos ?_⟩
  rw [take_set]
  have body : bytes.take size = recordBody record := take_body record rest rfl
  have stored : (bytes.drop size).take checksumSize = _ := stored_field record rest rfl
  change UInt32.ofNat (BigEndian.load (((bytes.set position byte).drop size).take checksumSize)) ≠
    checksum ((bytes.take size).set position byte)
  rw [body]
  by_cases covered : position < size
  · -- the changed byte is hashed, the stored checksum is not touched
    rw [slice_set_outside bytes (Or.inl covered), stored, BigEndian.load_store_UInt32]
    have position_lt : position < (recordBody record).length := by
      rw [bodyLength]
      exact covered
    have differs : (recordBody record)[position] ≠ byte := by
      intro same
      apply changed
      rw [← same]
      simp only [recordBytes]
      rw [getElem_append_left position_lt]
    exact (checksum_set_ne position_lt differs).symm
  · -- the changed byte is one of the stored checksum, the hashed part is not touched
    let trailer := BigEndian.store 4 (checksum (recordBody record)).toNat
    have trailerLength : trailer.length = 4 := BigEndian.store_length _ _
    have four : checksumSize = 4 := rfl
    have place : position - size < trailer.length := by omega
    have hashed : (recordBody record).set position byte = recordBody record :=
      set_eq_of_length_le (by omega)
    rw [hashed, drop_set, if_neg covered, take_set, stored]
    intro same
    have small : BigEndian.load (trailer.set (position - size) byte) < 2 ^ 32 := by
      have bound := BigEndian.load_lt (trailer.set (position - size) byte)
      rwa [length_set, trailerLength] at bound
    have there : trailer[position - size] ≠ byte := by
      intro same
      apply changed
      rw [← same]
      simp only [recordBytes]
      rw [getElem_append_right (by omega)]
      simp only [bodyLength]
      rfl
    apply BigEndian.load_set_ne place there
    rw [BigEndian.load_store (checksum (recordBody record)).toNat_lt, ← same,
      UInt32.toNat_ofNat_of_lt' small]

end Corrupt

section Single

variable {records : List LogRecord} {index position : Nat} {byte : UInt8}

/-- A log around one of its records. -/
theorem log_split (known : index < records.length) :
    records.flatMap recordBytes = (records.take index).flatMap recordBytes ++
      (recordBytes records[index] ++ (records.drop (index + 1)).flatMap recordBytes) := by
  have split : records = records.take index ++ records[index] :: records.drop (index + 1) := by
    rw [getElem_cons_drop, take_append_drop]
  have whole := congrArg (List.flatMap recordBytes) split
  rw [List.flatMap_append, flatMap_cons] at whole
  exact whole

theorem log_eq_nil {records : List LogRecord} : records.flatMap recordBytes = [] ↔ records = [] := by
  constructor
  · intro empty
    cases records with
    | nil => rfl
    | cons record records =>
      rw [flatMap_cons] at empty
      exact absurd (append_eq_nil_iff.mp empty).1 (frames.nonempty record)
  · intro none
    rw [none]
    rfl

/-- One byte changed in a log, outside the size fields, is caught where it is: the
records before it are read, and the tail is torn exactly when it is the last record. -/
theorem recoverLog_set (fit : ∀ record ∈ records, record.payload.length ≤ maxPayload)
    (known : index < records.length) (inside : position < (recordBytes records[index]).length)
    (outside : position < 18 ∨ 22 ≤ position)
    (changed : (recordBytes records[index])[position] ≠ byte) :
    let start := ((records.take index).flatMap recordBytes).length
    let altered := (records.flatMap recordBytes).set (start + position) byte
    readLog altered = ⟨records.take index, .badChecksum⟩ ∧
      recoverLog altered = ⟨.none, if index + 1 = records.length then .tornTail else .corrupt,
        .badChecksum, records.take index, start⟩ := by
  let before := (records.take index).flatMap recordBytes
  let after := (records.drop (index + 1)).flatMap recordBytes
  let damaged := (recordBytes records[index]).set position byte ++ after
  have here : records[index].Fits := fit _ (getElem_mem known)
  have earlier : ∀ record ∈ records.take index, record.Fits :=
    fun record member => fit record (mem_of_mem_take member)
  have shape : (records.flatMap recordBytes).set (before.length + position) byte =
      before ++ damaged := by
    rw [log_split known, set_append_right _ _ (Nat.le_add_right _ _), Nat.add_sub_cancel_left,
      set_append_left _ _ inside]
  obtain ⟨declared, failed⟩ := decodeFrame_set after here inside changed outside
  have size : damaged.length = recordHeaderSize + records[index].payload.length + checksumSize +
      after.length := by
    rw [length_append, length_set, recordBytes_length]
  have more : damaged ≠ [] := by
    intro empty
    rw [empty, length_nil] at size
    have header : recordHeaderSize = 22 := rfl
    omega
  have scan := Scan.prepend frames earlier (Scan.stop more failed)
  rw [append_nil, Nat.add_zero] at scan
  have last : after.length = 0 ↔ index + 1 = records.length := by
    rw [length_eq_zero_iff, log_eq_nil, drop_eq_nil_iff]
    omega
  have confined : checksumFailureConfinedToTail (before ++ damaged) before.length = true ↔
      index + 1 = records.length := by
    rw [checksumFailureConfinedToTail, beq_iff_eq, drop_left, declared, length_append,
      size, ← last]
    omega
  simp only
  rw [shape, readLog_eq scan, recoverLog_eq scan]
  refine ⟨rfl, ?_⟩
  simp only [Option.getD_some, classifyTail, before, confined]

theorem recoverLog_set_payload :
    recoverLog (([⟨1, .commandRecord, 0, [7]⟩, ⟨2, .eventRecord, 0, []⟩].flatMap recordBytes).set
      (0 + 22) 9) = ⟨.none, .corrupt, .badChecksum, [], 0⟩ :=
  (@recoverLog_set [⟨1, .commandRecord, 0, [7]⟩, ⟨2, .eventRecord, 0, []⟩] 0 22 9 (by decide)
    (by decide) (by decide) (by decide) (by decide)).2

end Single

section Cut

variable {record : LogRecord} {size : Nat}

/-- A frame that is cut short is truncated, whatever of it is there. -/
theorem decodeFrame_cut (fits : record.Fits) (short : size < (recordBytes record).length) :
    decodeFrame ((recordBytes record).take size) = .error .truncated := by
  have length : ((recordBytes record).take size).length = size := by
    rw [length_take]
    omega
  rw [decodeFrame, length]
  split
  · rfl
  · rename_i header
    have twentyTwo : recordHeaderSize = 22 := rfl
    have declared : declaredSize ((recordBytes record).take size) = record.payload.length := by
      have field : ((((recordBytes record).take size).drop 18).take 4) =
          ((recordBytes record).drop 18).take 4 := by
        rw [drop_take, take_take, Nat.min_eq_left (by omega)]
      have whole := declaredSize_of_fits [] fits
      rw [append_nil] at whole
      rw [declaredSize, field]
      exact whole
    have total := recordBytes_length record
    rw [declared, if_neg (Nat.not_lt.mpr fits), if_pos (by omega)]

/-- The size of the log's first records. -/
def boundaryAt (records : List LogRecord) (count : Nat) : Nat :=
  ((records.take count).flatMap recordBytes).length

theorem boundaryAt_cons (record : LogRecord) (records : List LogRecord) (count : Nat) :
    boundaryAt (record :: records) (count + 1) =
      (recordBytes record).length + boundaryAt records count := by
  rw [boundaryAt, take_succ_cons, flatMap_cons, length_append]
  rfl

/-- A cut falls behind some whole records, and before the end of the next one if any. -/
theorem exists_boundary (records : List LogRecord) {cut : Nat}
    (within : cut ≤ (records.flatMap recordBytes).length) :
    ∃ count, count ≤ records.length ∧ boundaryAt records count ≤ cut ∧
      (count < records.length → cut < boundaryAt records (count + 1)) := by
  induction records generalizing cut with
  | nil => exact ⟨0, Nat.le_refl _, Nat.zero_le _, fun none => absurd none (Nat.lt_irrefl 0)⟩
  | cons record records ih =>
    rw [flatMap_cons, length_append] at within
    by_cases early : cut < (recordBytes record).length
    · refine ⟨0, Nat.zero_le _, Nat.zero_le _, fun _ => ?_⟩
      rw [boundaryAt_cons]
      omega
    · obtain ⟨count, counted, reached, beyond⟩ :=
        @ih (cut - (recordBytes record).length) (by omega)
      refine ⟨count + 1, Nat.succ_le_succ counted, ?_, ?_⟩
      · rw [boundaryAt_cons]
        omega
      · intro known
        have next := beyond (Nat.lt_of_succ_lt_succ known)
        rw [boundaryAt_cons]
        omega

variable {records : List LogRecord} {count cut : Nat}

theorem flatMap_split (records : List LogRecord) (count : Nat) :
    records.flatMap recordBytes = (records.take count).flatMap recordBytes ++
      (records.drop count).flatMap recordBytes := by
  rw [← List.flatMap_append, take_append_drop]

theorem take_boundary (records : List LogRecord) (count : Nat) :
    (records.flatMap recordBytes).take (boundaryAt records count) =
      (records.take count).flatMap recordBytes := by
  rw [flatMap_split records count, boundaryAt, take_left]

theorem drop_boundary (records : List LogRecord) (count : Nat) :
    (records.flatMap recordBytes).drop (boundaryAt records count) =
      (records.drop count).flatMap recordBytes := by
  rw [flatMap_split records count, boundaryAt, drop_left]

theorem boundaryAt_succ (known : count < records.length) :
    boundaryAt records (count + 1) =
      boundaryAt records count + (recordBytes records[count]).length := by
  rw [boundaryAt, take_succ_eq_append_getElem known, List.flatMap_append,
    length_append, flatMap_singleton]
  rfl

theorem take_within (known : count < records.length) (reached : boundaryAt records count ≤ cut)
    (beyond : cut < boundaryAt records (count + 1)) :
    cut - boundaryAt records count < (recordBytes records[count]).length ∧
      (records.flatMap recordBytes).take cut = (records.take count).flatMap recordBytes ++
        (recordBytes records[count]).take (cut - boundaryAt records count) := by
  have next := boundaryAt_succ known
  have short : cut - boundaryAt records count < (recordBytes records[count]).length := by omega
  refine ⟨short, ?_⟩
  have front : ((records.take count).flatMap recordBytes).take cut =
      (records.take count).flatMap recordBytes := take_of_length_le reached
  rw [log_split known, take_append, front, ← boundaryAt,
    take_append_of_le_length (Nat.le_of_lt short)]

/-- A log cut at any byte: the records that end by then are recovered, and the tail is
clean at a record boundary, torn within a header, corrupt once a header is whole. -/
theorem recoverLog_take (fit : ∀ record ∈ records, record.payload.length ≤ maxPayload)
    (within : cut ≤ (records.flatMap recordBytes).length) :
    ∃ count, count ≤ records.length ∧ boundaryAt records count ≤ cut ∧
      (count < records.length → cut < boundaryAt records (count + 1)) ∧
      recoverLog ((records.flatMap recordBytes).take cut) =
        ⟨.none,
          if cut = boundaryAt records count then .cleanTail
          else if cut - boundaryAt records count < 22 then .tornTail else .corrupt,
          if cut = boundaryAt records count then .none else .truncated,
          records.take count, boundaryAt records count⟩ := by
  obtain ⟨count, counted, reached, beyond⟩ := exists_boundary records within
  refine ⟨count, counted, reached, beyond, ?_⟩
  have earlier : ∀ record ∈ records.take count, record.Fits :=
    fun record member => fit record (mem_of_mem_take member)
  by_cases exactly : cut = boundaryAt records count
  · rw [if_pos exactly, if_pos exactly, exactly, take_boundary]
    exact recoverLog_eq (scan_encodings frames earlier)
  · have known : count < records.length := by
      apply Nat.lt_of_le_of_ne counted
      intro all
      have total : boundaryAt records count = (records.flatMap recordBytes).length := by
        rw [boundaryAt, all, take_length]
      omega
    obtain ⟨short, piece⟩ := take_within known reached (beyond known)
    have more : (recordBytes records[count]).take (cut - boundaryAt records count) ≠ [] := by
      apply ne_nil_of_length_pos
      rw [length_take]
      omega
    have failed := decodeFrame_cut (fit _ (getElem_mem known)) short
    have scan := Scan.prepend frames earlier (Scan.stop more failed)
    rw [append_nil, Nat.add_zero, ← piece] at scan
    have left : ((records.flatMap recordBytes).take cut).length = cut := by
      rw [length_take]
      omega
    rw [recoverLog_eq scan, if_neg exactly, if_neg exactly]
    simp only [Option.getD_some, classifyTail, truncatedFailureConfinedToPartialHeader, left,
      decide_eq_true_eq]
    rfl

/-- A cut within the header of the second of two records. -/
theorem recoverLog_take_header :
    let records : List LogRecord := [⟨1, .commandRecord, 0, [7]⟩, ⟨2, .commandRecord, 0, []⟩]
    recoverLog ((records.flatMap recordBytes).take 36) =
      ⟨.none, .tornTail, .truncated, [⟨1, .commandRecord, 0, [7]⟩], 27⟩ := by
  intro records
  obtain ⟨count, few, below, above, recovered⟩ :=
    @recoverLog_take records 36 (by decide) (by decide)
  obtain rfl : count = 1 := by
    match count, few, below, above with
    | 0, _, _, above => exact absurd (above (by decide)) (by decide)
    | 1, _, _, _ => rfl
    | 2, _, below, _ => exact absurd below (by decide)
  exact recovered

end Cut

end Qsl.EventLog
