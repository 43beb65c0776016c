import Qsl.EventLog
import Qsl.FrameScan

namespace Qsl.EventLog

open List

variable {size : Nat}

/-- Records that the readers accept. -/
def LogRecord.Fits (record : LogRecord) : Prop := record.payload.length ≤ maxPayload

instance (record : LogRecord) : Decidable record.Fits := inferInstanceAs (Decidable (_ ≤ _))

theorem encodeRecord_of_fits {record : LogRecord} (fits : record.Fits) (out : List UInt8) :
    encodeRecord record out = some (out ++ recordBytes record) := by
  rw [encodeRecord, if_neg (Nat.not_lt.mpr fits)]

theorem encodeRecords_of_fits {records : List LogRecord} (fit : ∀ record ∈ records, record.Fits)
    (out : List UInt8) : encodeRecords records out = some (out ++ records.flatMap recordBytes) := by
  induction records generalizing out with
  | nil => simp [encodeRecords]
  | cons record records ih =>
    have rest := ih (fun other member => fit other (mem_cons_of_mem _ member))
      (out ++ recordBytes record)
    rw [encodeRecords, encodeRecord_of_fits (fit record mem_cons_self), Option.bind_some,
      rest, flatMap_cons, append_assoc]

section Layout

theorem slice (front middle back : List UInt8) {start size : Nat} (before : front.length = start)
    (within : middle.length = size) :
    ((front ++ (middle ++ back)).drop start).take size = middle := by
  subst before within
  rw [drop_left, take_left]

theorem recordBody_length (record : LogRecord) :
    (recordBody record).length = recordHeaderSize + record.payload.length := by
  simp only [recordBody, length_append, BigEndian.store_length, recordHeaderSize]

theorem recordBytes_length (record : LogRecord) :
    (recordBytes record).length = recordHeaderSize + record.payload.length + checksumSize := by
  rw [recordBytes, length_append, recordBody_length, BigEndian.store_length]
  rfl

variable (record : LogRecord) (rest : List UInt8)

/-- The framed bytes field by field. -/
theorem recordBytes_fields :
    recordBytes record ++ rest =
      BigEndian.store 8 record.seqNo.toNat ++ (BigEndian.store 2 record.type.raw.toNat ++
        (BigEndian.store 8 record.logicalTimestamp.toNat ++
          (BigEndian.store 4 record.payload.length ++ (record.payload ++
            (BigEndian.store 4 (checksum (recordBody record)).toNat ++ rest))))) := by
  simp only [recordBytes, recordBody, append_assoc]

theorem take_body (length : recordHeaderSize + record.payload.length = size) :
    (recordBytes record ++ rest).take size = recordBody record := by
  rw [recordBytes, append_assoc, ← length, ← recordBody_length, take_left]

theorem stored_field (length : recordHeaderSize + record.payload.length = size) :
    ((recordBytes record ++ rest).drop size).take checksumSize =
      BigEndian.store 4 (checksum (recordBody record)).toNat := by
  rw [recordBytes, append_assoc]
  apply slice
  · rw [recordBody_length, length]
  · rw [BigEndian.store_length]
    rfl

theorem seqNo_field :
    (recordBytes record ++ rest).take 8 = BigEndian.store 8 record.seqNo.toNat := by
  rw [recordBytes_fields]
  exact slice [] _ _ rfl (BigEndian.store_length _ _)

theorem type_field :
    ((recordBytes record ++ rest).drop 8).take 2 =
      BigEndian.store 2 record.type.raw.toNat := by
  rw [recordBytes_fields]
  exact slice _ _ _ (BigEndian.store_length _ _) (BigEndian.store_length _ _)

theorem logicalTimestamp_field :
    ((recordBytes record ++ rest).drop 10).take 8 =
      BigEndian.store 8 record.logicalTimestamp.toNat := by
  rw [recordBytes_fields, ← append_assoc]
  apply slice
  · simp only [length_append, BigEndian.store_length]
  · exact BigEndian.store_length _ _

theorem payloadSize_field :
    ((recordBytes record ++ rest).drop 18).take 4 =
      BigEndian.store 4 record.payload.length := by
  rw [recordBytes_fields, ← append_assoc, ← append_assoc]
  apply slice
  · simp only [length_append, BigEndian.store_length]
  · exact BigEndian.store_length _ _

theorem payload_field :
    ((recordBytes record ++ rest).drop recordHeaderSize).take record.payload.length =
      record.payload := by
  rw [recordBytes_fields, ← append_assoc, ← append_assoc, ← append_assoc]
  apply slice
  · simp only [length_append, BigEndian.store_length, recordHeaderSize]
  · rfl

variable {record}

theorem declaredSize_of_fits (fits : record.Fits) :
    declaredSize (recordBytes record ++ rest) = record.payload.length := by
  have small : record.payload.length < 256 ^ 4 := Nat.lt_of_le_of_lt fits (by decide)
  rw [declaredSize, payloadSize_field, BigEndian.load_store small]

end Layout

/-- The branches of `decode_record`, once a complete frame is there. -/
theorem decodeFrame_whole {bytes : List UInt8} (header : recordHeaderSize ≤ bytes.length)
    (declared : declaredSize bytes = size) (small : size ≤ maxPayload)
    (whole : recordHeaderSize + size + checksumSize ≤ bytes.length) :
    decodeFrame bytes =
      if UInt32.ofNat (BigEndian.load ((bytes.drop (recordHeaderSize + size)).take checksumSize)) ≠
          checksum (bytes.take (recordHeaderSize + size)) then .error .badChecksum
      else .ok (⟨UInt64.ofNat (BigEndian.load (bytes.take 8)),
        ⟨UInt16.ofNat (BigEndian.load ((bytes.drop 8).take 2))⟩,
        UInt64.ofNat (BigEndian.load ((bytes.drop 10).take 8)),
        (bytes.drop recordHeaderSize).take size⟩, recordHeaderSize + size + checksumSize) := by
  rw [decodeFrame, if_neg (Nat.not_lt.mpr header), declared]
  simp only [if_neg (Nat.not_lt.mpr small), if_neg (Nat.not_lt.mpr whole)]

/-- Decoding undoes encoding. -/
theorem decodeFrame_recordBytes {record : LogRecord} (fits : record.Fits) (rest : List UInt8) :
    decodeFrame (recordBytes record ++ rest) = .ok (record, (recordBytes record).length) := by
  have length := recordBytes_length record
  have whole : recordHeaderSize + record.payload.length + checksumSize ≤
      (recordBytes record ++ rest).length := by
    rw [length_append, length]
    omega
  have header : recordHeaderSize ≤ (recordBytes record ++ rest).length := by omega
  rw [decodeFrame_whole header (declaredSize_of_fits rest fits) fits whole, stored_field _ _ rfl,
    take_body _ _ rfl, BigEndian.load_store_UInt32, if_neg (fun differ => differ rfl), seqNo_field,
    BigEndian.load_store_UInt64, type_field, BigEndian.load_store_UInt16, logicalTimestamp_field,
    BigEndian.load_store_UInt64, payload_field, length]

section Exact

variable {bytes : List UInt8}

theorem store_load_slice {start size : Nat} (within : start + size ≤ bytes.length) :
    BigEndian.store size (BigEndian.load ((bytes.drop start).take size)) =
      (bytes.drop start).take size := by
  have length : ((bytes.drop start).take size).length = size := by
    rw [length_take, length_drop]
    omega
  have stored := BigEndian.store_load ((bytes.drop start).take size)
  rwa [length] at stored

theorem load_slice_lt (start size : Nat) :
    BigEndian.load ((bytes.drop start).take size) < 256 ^ size := by
  have small := BigEndian.load_lt ((bytes.drop start).take size)
  have short : ((bytes.drop start).take size).length ≤ size := length_take_le _ _
  exact Nat.lt_of_lt_of_le small (Nat.pow_le_pow_right (by decide) short)

theorem toNat_load_UInt64 (start : Nat) :
    (UInt64.ofNat (BigEndian.load ((bytes.drop start).take 8))).toNat =
      BigEndian.load ((bytes.drop start).take 8) :=
  UInt64.toNat_ofNat_of_lt' (load_slice_lt start 8)

theorem toNat_load_UInt32 (start : Nat) :
    (UInt32.ofNat (BigEndian.load ((bytes.drop start).take 4))).toNat =
      BigEndian.load ((bytes.drop start).take 4) :=
  UInt32.toNat_ofNat_of_lt' (load_slice_lt start 4)

theorem toNat_load_UInt16 (start : Nat) :
    (UInt16.ofNat (BigEndian.load ((bytes.drop start).take 2))).toNat =
      BigEndian.load ((bytes.drop start).take 2) :=
  UInt16.toNat_ofNat_of_lt' (load_slice_lt start 2)

/-- What an accepted frame looks like. -/
theorem decodeFrame_ok {record : LogRecord} (read : decodeFrame bytes = .ok (record, size)) :
    ∃ payloadSize, payloadSize = declaredSize bytes ∧ payloadSize ≤ maxPayload ∧
      size = recordHeaderSize + payloadSize + checksumSize ∧ size ≤ bytes.length ∧
      UInt32.ofNat (BigEndian.load
          ((bytes.drop (recordHeaderSize + payloadSize)).take checksumSize)) =
        checksum (bytes.take (recordHeaderSize + payloadSize)) ∧
      record = ⟨UInt64.ofNat (BigEndian.load (bytes.take 8)),
        ⟨UInt16.ofNat (BigEndian.load ((bytes.drop 8).take 2))⟩,
        UInt64.ofNat (BigEndian.load ((bytes.drop 10).take 8)),
        (bytes.drop recordHeaderSize).take payloadSize⟩ := by
  rw [decodeFrame] at read
  split at read
  · cases read
  simp only at read
  split at read
  · cases read
  rename_i small
  split at read
  · cases read
  rename_i whole
  split at read
  · cases read
  rename_i sound
  cases read
  exact ⟨_, rfl, Nat.not_lt.mp small, rfl, Nat.not_lt.mp whole, not_not.mp sound, rfl⟩

/-- Encoding undoes decoding: an accepted frame is the encoding of its record. -/
theorem recordBytes_of_decodeFrame {record : LogRecord}
    (read : decodeFrame bytes = .ok (record, size)) :
    record.Fits ∧ size ≤ bytes.length ∧ recordBytes record = bytes.take size := by
  obtain ⟨payloadSize, declared, small, rfl, whole, sound, rfl⟩ := decodeFrame_ok read
  have header : recordHeaderSize = 22 := rfl
  have trailer : checksumSize = 4 := rfl
  have length : ((bytes.drop recordHeaderSize).take payloadSize).length = payloadSize := by
    rw [length_take, length_drop]
    omega
  have seqNo := @store_load_slice bytes 0 8 (by omega)
  have type := @store_load_slice bytes 8 2 (by omega)
  have timestamp := @store_load_slice bytes 10 8 (by omega)
  have sizeField := @store_load_slice bytes 18 4 (by omega)
  have checksumField := @store_load_slice bytes (recordHeaderSize + payloadSize) 4 (by omega)
  have seqNoValue := @toNat_load_UInt64 bytes 0
  rw [drop_zero] at seqNo seqNoValue
  have body : recordBody ⟨UInt64.ofNat (BigEndian.load (bytes.take 8)),
      ⟨UInt16.ofNat (BigEndian.load ((bytes.drop 8).take 2))⟩,
      UInt64.ofNat (BigEndian.load ((bytes.drop 10).take 8)),
      (bytes.drop recordHeaderSize).take payloadSize⟩ =
        bytes.take (recordHeaderSize + payloadSize) := by
    rw [recordBody, seqNoValue, toNat_load_UInt16, toNat_load_UInt64, length, declared,
      declaredSize, seqNo, type, timestamp, sizeField, take_add]
    simp only [header, show 22 = 8 + 2 + 8 + 4 by rfl, take_add]
  refine ⟨?_, whole, ?_⟩
  · rw [LogRecord.Fits, length]
    exact small
  · rw [recordBytes, body, ← sound, trailer, toNat_load_UInt32, checksumField]
    exact take_add.symm

end Exact

/-- The log is a stream of frames. -/
theorem frames : FrameScan.Frames decodeFrame recordBytes LogRecord.Fits where
  nonempty := by
    intro record empty
    have length := recordBytes_length record
    rw [empty, length_nil] at length
    have header : recordHeaderSize = 22 := rfl
    omega
  decodes := fun _ rest fits => decodeFrame_recordBytes fits rest
  encodes := fun _ _ _ read => recordBytes_of_decodeFrame read

section Loops

open FrameScan

variable {bytes : List UInt8} {records : List LogRecord} {error : Option LogError} {valid : Nat}

theorem decodeRecord_eq {offset : Nat} (within : offset ≤ bytes.length) :
    decodeRecord bytes offset =
      (decodeFrame (bytes.drop offset)).map (fun read => (read.1, offset + read.2)) := by
  rw [decodeRecord, if_neg (Nat.not_lt.mpr within)]

theorem drop_ne_nil {offset : Nat} : bytes.drop offset ≠ [] ↔ offset < bytes.length := by
  rw [ne_eq, drop_eq_nil_iff, Nat.not_le]

/-- A recovery with what the rest of the scan adds to it. -/
def LogRecovery.extend (recovery : LogRecovery) (records : List LogRecord)
    (error : Option LogError) (valid : Nat) : LogRecovery :=
  { recovery with
    records := recovery.records ++ records
    tailError := error.getD recovery.tailError
    validBytes := recovery.validBytes + valid }

theorem extend_end {offset : Nat} (finished : bytes.length ≤ offset)
    (scan : Scan decodeFrame (bytes.drop offset) records error valid) (recovery : LogRecovery) :
    recovery.extend records error valid = recovery := by
  rw [drop_eq_nil_iff.mpr finished] at scan
  obtain ⟨rfl, rfl, rfl⟩ := scan.unique frames Scan.clean
  rw [LogRecovery.extend, append_nil]
  rfl

/-- The loop of `recover_log` from the boundary on that it has reached. -/
theorem recoverLoop_eq {bound offset : Nat} (enough : bytes.length ≤ offset + bound)
    (within : offset ≤ bytes.length) (scan : Scan decodeFrame (bytes.drop offset) records error valid)
    (recovery : LogRecovery) (boundary : recovery.validBytes = offset) :
    recoverLoop bytes bound offset recovery = recovery.extend records error valid := by
  induction bound generalizing offset records valid recovery with
  | zero => exact (extend_end (by omega) scan recovery).symm
  | succ bound ih =>
    rw [recoverLoop]
    split
    · rename_i more
      rw [decodeRecord_eq within]
      generalize source : bytes.drop offset = rest at scan
      cases scan with
      | clean => exact absurd source (drop_ne_nil.mpr more)
      | stop _ failed =>
        rw [failed, LogRecovery.extend, append_nil]
        rfl
      | @next _ record size records _ valid read rest =>
        obtain ⟨_, fit, _⟩ := frames.encodes _ _ _ read
        rw [← source, length_drop] at fit
        rw [← source, drop_drop] at rest
        have positive := (frames.size_eq read).2
        have tail := ih (by omega) (by omega) rest
          { recovery with
            records := recovery.records ++ [record], validBytes := offset + size } rfl
        rw [read]
        simp only [Except.map, tail, LogRecovery.extend, append_assoc,
          singleton_append, boundary, Nat.add_assoc]
    · exact (extend_end (by omega) scan recovery).symm

/-- The two loops read alike. -/
theorem readLoop_eq (bound offset : Nat) (recovery : LogRecovery) :
    readLoop bytes bound offset ⟨recovery.records, recovery.tailError⟩ =
      ⟨(recoverLoop bytes bound offset recovery).records,
        (recoverLoop bytes bound offset recovery).tailError⟩ := by
  induction bound generalizing offset recovery with
  | zero => rfl
  | succ bound ih =>
    rw [readLoop, recoverLoop]
    split
    · cases decodeRecord bytes offset with
      | error _ => rfl
      | ok read =>
        exact ih read.2
          { recovery with records := recovery.records ++ [read.1], validBytes := read.2 }
    · rfl

/-- Every byte string scans in one way. -/
theorem exists_scan (bytes : List UInt8) :
    ∃ records error valid, Scan decodeFrame bytes records error valid := by
  induction length : bytes.length using Nat.strongRecOn generalizing bytes with
  | _ length ih =>
    subst length
    by_cases empty : bytes = []
    · subst empty
      exact ⟨_, _, _, Scan.clean⟩
    cases read : decodeFrame bytes with
    | error reason => exact ⟨_, _, _, Scan.stop empty read⟩
    | ok frame =>
      obtain ⟨record, size⟩ := frame
      have positive := (frames.size_eq read).2
      have nonempty := length_pos_iff.mpr empty
      obtain ⟨records, error, valid, rest⟩ := ih (bytes.drop size).length
        (by rw [length_drop]; omega) _ rfl
      exact ⟨_, _, _, Scan.next read rest⟩

theorem recoverLog_eq (scan : Scan decodeFrame bytes records error valid) :
    recoverLog bytes = ⟨.none, classifyTail bytes (error.getD .none) valid, error.getD .none,
      records, valid⟩ := by
  have loop := @recoverLoop_eq bytes records error valid bytes.length 0 (by omega)
    (Nat.zero_le _) (by rw [drop_zero]; exact scan) ⟨.none, .cleanTail, .none, [], 0⟩ rfl
  rw [recoverLog, loop]
  simp only [LogRecovery.extend, nil_append, Nat.zero_add]

theorem readLog_recoverLog (bytes : List UInt8) :
    readLog bytes = ⟨(recoverLog bytes).records, (recoverLog bytes).tailError⟩ :=
  readLoop_eq bytes.length 0 ⟨.none, .cleanTail, .none, [], 0⟩

theorem readLog_eq (scan : Scan decodeFrame bytes records error valid) :
    readLog bytes = ⟨records, error.getD .none⟩ := by
  rw [readLog_recoverLog, recoverLog_eq scan]

/-- Recovery in terms of the scan: what it answers and why it stopped. -/
theorem recoverLog_scan (bytes : List UInt8) :
    ∃ error, Scan decodeFrame bytes (recoverLog bytes).records error (recoverLog bytes).validBytes ∧
      (recoverLog bytes).tailError = error.getD .none := by
  obtain ⟨records, error, valid, scan⟩ := exists_scan bytes
  rw [recoverLog_eq scan]
  exact ⟨error, scan, rfl⟩

end Loops

end Qsl.EventLog
