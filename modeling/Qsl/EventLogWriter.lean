import Qsl.EventLogRepair

namespace Qsl.EventLog

open List
open FrameScan

inductive DurabilityMode where
  | bufferedOnly
  | flushOnAppend
  | fsyncOnAppend
  deriving DecidableEq, Repr

/-- A writer and the bytes of its file. -/
structure EventLogWriter where
  opened : Bool
  mode : DurabilityMode
  directorySyncPending : Bool
  file : List UInt8
  deriving DecidableEq, Repr

/-- What the C library did with one record: the answers of `fwrite`, `fflush` and the
storage sync, and how many bytes of the record the file then holds. -/
structure Stdio where
  written : Nat
  flushed : Bool
  synced : Bool
  stored : Nat
  deriving DecidableEq, Repr

namespace EventLogWriter

def syncParentDirectoryOnce (writer : EventLogWriter) (directorySynced : Bool) :
    EventLogWriter × Bool :=
  if !writer.directorySyncPending then (writer, true)
  else if !directorySynced then (writer, false)
  else ({ writer with directorySyncPending := false }, true)

/-- The constructor, given what is at the path and whether `fopen` and the sync of the
directory succeed. -/
def create (existing : Option (List UInt8)) (mode : DurabilityMode)
    (opened directorySynced : Bool) : EventLogWriter :=
  let writer : EventLogWriter := ⟨opened, mode, existing.isNone, existing.getD []⟩
  if !opened then writer
  else if mode = .fsyncOnAppend then
    let (synced, ok) := writer.syncParentDirectoryOnce directorySynced
    if ok then synced else { synced with opened := false }
  else writer

def append (writer : EventLogWriter) (record : LogRecord) (stdio : Stdio) :
    EventLogWriter × Bool :=
  if !writer.opened then (writer, false)
  else
    match encodeRecord record [] with
    | none => (writer, false)
    | some buf =>
      let stored := { writer with file := writer.file ++ buf.take stdio.stored }
      if stdio.written ≠ buf.length then (stored, false)
      else if writer.mode = .bufferedOnly then (stored, true)
      else if !stdio.flushed then (stored, false)
      else if writer.mode = .flushOnAppend then (stored, true)
      else (stored, stdio.synced)

def sync (writer : EventLogWriter) (flushed synced directorySynced : Bool) :
    EventLogWriter × Bool :=
  if !writer.opened then (writer, false)
  else if !flushed || !synced then (writer, false)
  else writer.syncParentDirectoryOnce directorySynced

/-- A sequence of appends, with the records whose append answered true. -/
def appendAll : EventLogWriter → List (LogRecord × Stdio) → EventLogWriter × List LogRecord
  | writer, [] => (writer, [])
  | writer, (record, stdio) :: calls =>
    let (writer', acknowledged) := writer.append record stdio
    let (final, records) := writer'.appendAll calls
    (final, if acknowledged then record :: records else records)

end EventLogWriter

open EventLogWriter

/-- The assumption on the C library outside buffered mode: an append that answers true has
stored the whole frame, one that answers false a strict part of it. -/
structure Admitted (writer : EventLogWriter) (call : LogRecord × Stdio) : Prop where
  durable : writer.mode ≠ .bufferedOnly
  whole : (writer.append call.1 call.2).2 = true → (recordBytes call.1).length ≤ call.2.stored
  short : (writer.append call.1 call.2).2 = false → call.2.stored < (recordBytes call.1).length

/-- The acknowledged records are read back in order, and still are after a repair. -/
structure Recovers (acknowledged : List LogRecord) (log : List UInt8) : Prop where
  read : acknowledged.Sublist (readLog log).records
  recovered : acknowledged.Sublist (recoverLog log).records
  repaired : ∀ resized synced, acknowledged.Sublist
    (readLog (repairLogFile log (recoverLog log) resized synced).1).records

/-- The append leaves part of a frame in the file. -/
def LeavesPart (call : LogRecord × Stdio) : Prop :=
  call.1.Fits ∧ 0 < call.2.stored ∧ call.2.stored < (recordBytes call.1).length

/-- The append stores its whole frame. -/
def StoresFrame (call : LogRecord × Stdio) : Prop :=
  (recordBytes call.1).length ≤ call.2.stored

instance (call : LogRecord × Stdio) : Decidable (LeavesPart call) :=
  inferInstanceAs (Decidable (_ ≤ _ ∧ _ < _ ∧ _ < _))

instance (call : LogRecord × Stdio) : Decidable (StoresFrame call) :=
  inferInstanceAs (Decidable (_ ≤ _))

section Append

variable {writer : EventLogWriter} {record : LogRecord} {stdio : Stdio}

/-- An append that reaches `fwrite` adds what the library stores, whatever it answers. -/
theorem append_stored (opened : writer.opened = true) (fits : record.Fits) :
    (writer.append record stdio).1 =
      { writer with file := writer.file ++ (recordBytes record).take stdio.stored } := by
  simp only [append, opened, encodeRecord_of_fits fits, nil_append, Bool.not_true,
    Bool.false_eq_true, if_false]
  split
  · rfl
  split
  · rfl
  split
  · rfl
  split
  · rfl
  · rfl

theorem append_refused (refused : ¬ (writer.opened = true ∧ record.Fits)) :
    writer.append record stdio = (writer, false) := by
  unfold append
  split
  · rfl
  · rename_i opened
    have large : record.payload.length > maxPayload := by
      by_contra small
      exact refused ⟨by simpa using opened, Nat.not_lt.mp small⟩
    rw [encodeRecord, if_pos large]

/-- What one append can do: write the whole frame and say so, or fail, with a part of the
frame left behind or nothing at all. -/
theorem append_cases (admitted : Admitted writer (record, stdio)) :
    (StoresFrame (record, stdio) ∧ record.Fits ∧ writer.append record stdio =
        ({ writer with file := writer.file ++ recordBytes record }, true)) ∨
      ∃ part, writer.append record stdio =
          ({ writer with file := writer.file ++ part }, false) ∧
        (part = [] ∨ LeavesPart (record, stdio)) := by
  by_cases accepted : writer.opened = true ∧ record.Fits
  · obtain ⟨opened, fits⟩ := accepted
    have stored := @append_stored writer record stdio opened fits
    cases answer : (writer.append record stdio).2 with
    | true =>
      have whole := admitted.whole answer
      rw [take_of_length_le whole] at stored
      exact Or.inl ⟨whole, fits, Prod.ext stored answer⟩
    | false =>
      have short := admitted.short answer
      refine Or.inr ⟨_, Prod.ext stored answer, ?_⟩
      rcases Nat.eq_zero_or_pos stdio.stored with nothing | some
      · rw [nothing]
        exact Or.inl rfl
      · exact Or.inr ⟨fits, some, short⟩
  · refine Or.inr ⟨[], ?_, Or.inl rfl⟩
    rw [append_refused accepted, append_nil]

/-- The mode and the handle stay as they are, so the assumption carries over. -/
theorem Admitted.written {call : LogRecord × Stdio} (admitted : Admitted writer call)
    (file : List UInt8) : Admitted { writer with file := file } call := by
  have answer : ({ writer with file := file }.append call.1 call.2).2 =
      (writer.append call.1 call.2).2 := by
    unfold append
    split
    · rfl
    · cases encodeRecord call.1 [] with
      | none => rfl
      | some buf => simp only [apply_ite Prod.snd]
  exact ⟨admitted.durable, answer ▸ admitted.whole, answer ▸ admitted.short⟩

end Append

section Run

variable {calls : List (LogRecord × Stdio)}

/-- A run only adds to the file; without whole frames it acknowledges nothing. -/
theorem appendAll_grows {writer : EventLogWriter} (admitted : ∀ call ∈ calls, Admitted writer call)
    (short : ∀ call ∈ calls, ¬ StoresFrame call) :
    ∃ more, (writer.appendAll calls).1.file = writer.file ++ more ∧
      (writer.appendAll calls).2 = [] := by
  induction calls generalizing writer with
  | nil => exact ⟨[], (append_nil _).symm, rfl⟩
  | cons call calls ih =>
    obtain ⟨record, stdio⟩ := call
    have none := short _ mem_cons_self
    rcases append_cases (admitted _ mem_cons_self) with ⟨whole, _⟩ | ⟨part, called, _⟩
    · exact absurd whole none
    · obtain ⟨more, grown, unacknowledged⟩ := @ih { writer with file := writer.file ++ part }
        (fun call member => (admitted call (mem_cons_of_mem _ member)).written _)
        (fun call member => short call (mem_cons_of_mem _ member))
      refine ⟨part ++ more, ?_, ?_⟩
      · simp only [appendAll, called, grown, append_assoc]
      · simp only [appendAll, called, unacknowledged, Bool.false_eq_true, if_false]

/-- As long as no whole frame follows a part of one, the file holds the acknowledged
records behind what it held before, and then perhaps a part that nothing can use. -/
theorem appendAll_file {writer : EventLogWriter} (admitted : ∀ call ∈ calls, Admitted writer call)
    (settled : calls.Pairwise (fun earlier later => LeavesPart earlier → ¬ StoresFrame later)) :
    ∃ more, (writer.appendAll calls).1.file =
        writer.file ++ ((writer.appendAll calls).2.flatMap recordBytes ++ more) ∧
      ∀ record ∈ (writer.appendAll calls).2, record.Fits := by
  induction calls generalizing writer with
  | nil =>
    refine ⟨[], ?_, fun record member => by cases member⟩
    simp [appendAll]
  | cons call calls ih =>
    obtain ⟨record, stdio⟩ := call
    obtain ⟨apart, rest⟩ := pairwise_cons.mp settled
    have later : ∀ file, ∀ call ∈ calls, Admitted { writer with file := file } call :=
      fun file call member => (admitted call (mem_cons_of_mem _ member)).written file
    rcases append_cases (admitted _ mem_cons_self) with
      ⟨_, fits, called⟩ | ⟨part, called, rfl | leaves⟩
    · obtain ⟨more, shape, fit⟩ := ih (later (writer.file ++ recordBytes record)) rest
      refine ⟨more, ?_, ?_⟩
      · simp only [appendAll, called, if_true, flatMap_cons, shape, append_assoc]
      · simp only [appendAll, called, if_true]
        intro other member
        rcases mem_cons.mp member with rfl | earlier
        · exact fits
        · exact fit other earlier
    · obtain ⟨more, shape, fit⟩ := ih (later (writer.file ++ [])) rest
      refine ⟨more, ?_, ?_⟩
      · simp only [appendAll, called, Bool.false_eq_true, if_false, shape]
        rw [append_nil]
      · simp only [appendAll, called, Bool.false_eq_true, if_false]
        exact fit
    -- A part is left behind: nothing is acknowledged from here on.
    · obtain ⟨more, grown, unacknowledged⟩ := appendAll_grows (later (writer.file ++ part))
        (fun call member => apart call member leaves)
      refine ⟨part ++ more, ?_, ?_⟩
      · simp only [appendAll, called, Bool.false_eq_true, if_false, unacknowledged, grown,
          flatMap_nil, nil_append, append_assoc]
      · simp only [appendAll, called, Bool.false_eq_true, if_false, unacknowledged]
        intro other member
        cases member

/-- A clean log is the encodings of some records. -/
theorem recoverLog_clean {bytes : List UInt8} (clean : (recoverLog bytes).tail = .cleanTail) :
    ∃ records : List LogRecord, (∀ record ∈ records, record.Fits) ∧
      bytes = records.flatMap recordBytes := by
  obtain ⟨records, error, valid, scan⟩ := exists_scan bytes
  obtain ⟨_, encoded, fit⟩ := scan.encodes frames
  refine ⟨records, fit, ?_⟩
  rcases scan.stops with ⟨_, ended⟩ | ⟨reason, rfl, more, failed⟩
  · rw [encoded, take_of_length_le (drop_eq_nil_iff.mp ended)]
  · rw [recoverLog_eq scan] at clean
    have unfailed : reason = .none := classifyTail_clean.mp clean
    rcases decodeFrame_error failed with ⟨rfl, _⟩ | ⟨rfl, _⟩ | ⟨rfl, _⟩ | ⟨rfl, _⟩ <;>
      cases unfailed

/-- A log that starts with the encodings of some records gives them back first, and a
repair keeps them. -/
theorem recovers_front {records acknowledged : List LogRecord} {more : List UInt8}
    (fit : ∀ record ∈ records, record.Fits) (among : acknowledged.Sublist records) :
    Recovers acknowledged (records.flatMap recordBytes ++ more) := by
  obtain ⟨others, error, valid, tail⟩ := exists_scan more
  have scan := tail.prepend frames fit
  have listed : acknowledged.Sublist (records ++ others) :=
    among.trans (sublist_append_left _ _)
  have read : acknowledged.Sublist
      (readLog (records.flatMap recordBytes ++ more)).records := by
    rw [readLog_eq scan]
    exact listed
  refine ⟨read, ?_, ?_⟩
  · rw [recoverLog_eq scan]
    exact listed
  · intro resized synced
    rw [recoverLog_eq scan]
    unfold repairLogFile
    split
    · exact read
    split
    · exact read
    split
    · exact read
    · rw [readLog_eq (scan.take frames)]
      exact listed

/-- Over a clean log, every acknowledged append is recoverable in a run where no append
stores a whole frame behind the part of one that a failed append has left. -/
theorem appendAll_recovers {writer : EventLogWriter}
    (clean : (recoverLog writer.file).tail = .cleanTail)
    (admitted : ∀ call ∈ calls, Admitted writer call)
    (settled : calls.Pairwise (fun earlier later => LeavesPart earlier → ¬ StoresFrame later)) :
    Recovers (writer.appendAll calls).2 (writer.appendAll calls).1.file := by
  obtain ⟨old, oldFit, held⟩ := recoverLog_clean clean
  obtain ⟨more, shape, fit⟩ := appendAll_file admitted settled
  have joined : ∀ record ∈ old ++ (writer.appendAll calls).2, record.Fits := by
    intro record member
    exact (mem_append.mp member).elim (oldFit record) (fit record)
  have recovers := @recovers_front _ _ more joined (sublist_append_right old _)
  rw [List.flatMap_append, ← held, append_assoc, ← shape] at recovers
  exact recovers

/-- One record acknowledged, then a failed append that leaves nine bytes. -/
theorem appendAll_recovers_torn :
    Recovers [⟨1, .commandRecord, 0, []⟩]
      (appendAll ⟨true, .flushOnAppend, false, []⟩
        [(⟨1, .commandRecord, 0, []⟩, ⟨26, true, true, 26⟩),
          (⟨2, .commandRecord, 0, []⟩, ⟨9, true, true, 9⟩)]).1.file := by
  have calls : ∀ call ∈ [(⟨1, .commandRecord, 0, []⟩, ⟨26, true, true, 26⟩),
      ((⟨2, .commandRecord, 0, []⟩ : LogRecord), (⟨9, true, true, 9⟩ : Stdio))],
      Admitted ⟨true, .flushOnAppend, false, []⟩ call := by
    simp only [forall_mem_cons]
    exact ⟨⟨by decide, by decide, by decide⟩, ⟨by decide, by decide, by decide⟩,
      fun call member => by cases member⟩
  exact appendAll_recovers (by decide) calls (by decide)

/-- A failed append leaves the 22 header bytes of a record with 22 bytes of payload. The
next record is acknowledged, is not read back, and the repair removes it: the stale header
spans exactly its frame, which looks like a torn tail. -/
theorem appendAll_loses_acknowledged :
    ∃ (writer : EventLogWriter) (calls : List (LogRecord × Stdio)),
      (recoverLog writer.file).tail = .cleanTail ∧ (∀ call ∈ calls, Admitted writer call) ∧
      (writer.appendAll calls).2 = [⟨2, .commandRecord, 0, []⟩] ∧
      (readLog (writer.appendAll calls).1.file).records = [] ∧
      (recoverLog (writer.appendAll calls).1.file).records = [] ∧
      repairLogFile (writer.appendAll calls).1.file
        (recoverLog (writer.appendAll calls).1.file) true true = ([], true) := by
  refine ⟨⟨true, .flushOnAppend, false, []⟩,
    [(⟨1, .commandRecord, 0, List.replicate 22 0⟩, ⟨22, true, true, 22⟩),
      (⟨2, .commandRecord, 0, []⟩, ⟨26, true, true, 26⟩)], by decide, ?_, by decide +kernel,
    by decide +kernel, by decide +kernel, by decide +kernel⟩
  simp only [forall_mem_cons]
  exact ⟨⟨by decide, by decide, by decide⟩, ⟨by decide, by decide, by decide⟩,
    fun call member => by cases member⟩

end Run

end Qsl.EventLog
