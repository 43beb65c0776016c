import Qsl.EventLogFrames

namespace Qsl.EventLog

open FrameScan

/-- The offsets that decoding whole records from the start leads to. -/
inductive Boundary (bytes : List UInt8) : Nat → Prop where
  | start : Boundary bytes 0
  | next {offset next : Nat} {record : LogRecord} (reached : Boundary bytes offset)
      (read : decodeRecord bytes offset = .ok (record, next)) : Boundary bytes next

section Boundary

variable {bytes : List UInt8} {records : List LogRecord} {error : Option LogError} {valid : Nat}

theorem step_of_decodeRecord {offset next : Nat} {record : LogRecord}
    (read : decodeRecord bytes offset = .ok (record, next)) :
    Step decodeFrame bytes offset next := by
  rw [decodeRecord] at read
  split at read
  · cases read
  · cases frame : decodeFrame (bytes.drop offset) with
    | error reason =>
      rw [frame] at read
      cases read
    | ok found =>
      rw [frame] at read
      cases read
      exact ⟨found.1, found.2, frame, rfl⟩

theorem decodeRecord_of_step {offset next : Nat} (step : Step decodeFrame bytes offset next) :
    ∃ record, decodeRecord bytes offset = .ok (record, next) := by
  obtain ⟨record, size, read, rfl⟩ := step
  have more := drop_ne_nil.mp (frames.not_empty read)
  refine ⟨record, ?_⟩
  rw [decodeRecord_eq (Nat.le_of_lt more), read]
  rfl

/-- Boundaries are where whole frames lead from the start. -/
theorem boundary_iff {offset : Nat} : Boundary bytes offset ↔ Walk decodeFrame bytes 0 offset := by
  constructor
  · intro boundary
    induction boundary with
    | start => exact Relation.ReflTransGen.refl
    | next _ read ih => exact Relation.ReflTransGen.tail ih (step_of_decodeRecord read)
  · intro walk
    induction walk with
    | refl => exact Boundary.start
    | tail _ step ih =>
      obtain ⟨_, read⟩ := decodeRecord_of_step step
      exact Boundary.next ih read

theorem boundary_scan (scan : Scan decodeFrame bytes records error valid) :
    Boundary bytes valid ∧ ∀ offset, Boundary bytes offset → offset ≤ valid := by
  have whole : Scan decodeFrame (bytes.drop 0) records error valid := scan
  have walk := whole.walk
  rw [Nat.zero_add] at walk
  refine ⟨boundary_iff.mpr walk, ?_⟩
  intro offset boundary
  have onward := whole.walk_end frames (boundary_iff.mp boundary)
  rw [Nat.zero_add] at onward
  exact onward.le

end Boundary

/-- Recovery is exact on every byte string. It reads what `read_log` reads; encoding
those records again gives the bytes up to `validBytes`, the furthest record boundary;
these bytes alone are a clean log of the same records, and further records appended to
them are read back behind those. A log of encodings is read back as it was written. -/
theorem recoverLog_exact (bytes : List UInt8) :
    readLog bytes = ⟨(recoverLog bytes).records, (recoverLog bytes).tailError⟩ ∧
      let recovery := recoverLog bytes
      let kept := bytes.take recovery.validBytes
      encodeRecords recovery.records [] = some kept ∧
      recoverLog kept = ⟨.none, .cleanTail, .none, recovery.records, recovery.validBytes⟩ ∧
      (Boundary bytes recovery.validBytes ∧
        ∀ offset, Boundary bytes offset → offset ≤ recovery.validBytes) ∧
      (∀ records : List LogRecord, (∀ record ∈ records, record.payload.length ≤ maxPayload) →
        ∃ appended, encodeRecords records kept = some appended ∧
          readLog appended = ⟨recovery.records ++ records, .none⟩) ∧
      (∀ records : List LogRecord, (∀ record ∈ records, record.payload.length ≤ maxPayload) →
        ∃ log, encodeRecords records [] = some log ∧ readLog log = ⟨records, .none⟩) := by
  obtain ⟨error, scan, stopped⟩ := recoverLog_scan bytes
  obtain ⟨_, encoded, fit⟩ := scan.encodes frames
  refine ⟨readLog_recoverLog bytes, ?_, recoverLog_eq (scan.take frames), boundary_scan scan,
    ?_, ?_⟩
  · rw [encodeRecords_of_fits fit, encoded]
    rfl
  · intro records small
    have joined : ∀ record ∈ (recoverLog bytes).records ++ records, record.Fits := by
      intro record member
      exact (List.mem_append.mp member).elim (fit record) (small record)
    have whole := scan_encodings frames joined
    rw [List.flatMap_append, encoded] at whole
    exact ⟨_, encodeRecords_of_fits small _, readLog_eq whole⟩
  · intro records small
    exact ⟨_, encodeRecords_of_fits small _, readLog_eq (scan_encodings frames small)⟩

end Qsl.EventLog
