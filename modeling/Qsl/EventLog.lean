import Qsl.BigEndian

namespace Qsl.EventLog

/-- The 16-bit record type field; readers keep values they do not know. -/
structure RecordType where
  raw : UInt16
  deriving DecidableEq, Repr

def RecordType.commandRecord : RecordType := ⟨1⟩

def RecordType.eventRecord : RecordType := ⟨2⟩

structure LogRecord where
  seqNo : UInt64
  type : RecordType
  logicalTimestamp : UInt64
  payload : List UInt8
  deriving DecidableEq, Repr

inductive LogError where
  | none
  | openFailed
  | truncated
  | badChecksum
  | payloadTooLarge
  deriving DecidableEq, Repr

def recordHeaderSize : Nat := 22

def checksumSize : Nat := 4

def maxPayload : Nat := 2 ^ 20

def checksumStep (hash : UInt32) (byte : UInt8) : UInt32 := (hash ^^^ byte.toUInt32) * 16777619

/-- FNV-1a, 32 bits. -/
def checksum (data : List UInt8) : UInt32 := data.foldl checksumStep 2166136261

/-- Header and payload, the part that the checksum covers. -/
def recordBody (record : LogRecord) : List UInt8 :=
  BigEndian.store 8 record.seqNo.toNat ++ BigEndian.store 2 record.type.raw.toNat ++
    BigEndian.store 8 record.logicalTimestamp.toNat ++ BigEndian.store 4 record.payload.length ++
    record.payload

/-- The framed bytes that `encode_record` appends. -/
def recordBytes (record : LogRecord) : List UInt8 :=
  recordBody record ++ BigEndian.store 4 (checksum (recordBody record)).toNat

/-- Append a record's bytes; a payload over the cap is refused. -/
def encodeRecord (record : LogRecord) (out : List UInt8) : Option (List UInt8) :=
  if record.payload.length > maxPayload then none else some (out ++ recordBytes record)

/-- Append the records one after the other. -/
def encodeRecords : List LogRecord → List UInt8 → Option (List UInt8)
  | [], out => some out
  | record :: records, out => (encodeRecord record out).bind (encodeRecords records)

/-- The payload size that a complete header declares. -/
def declaredSize (bytes : List UInt8) : Nat := BigEndian.load ((bytes.drop 18).take 4)

/-- `decode_record` on the bytes from the record's offset on: the record and its size. -/
def decodeFrame (bytes : List UInt8) : Except LogError (LogRecord × Nat) :=
  if bytes.length < recordHeaderSize then .error .truncated
  else
    let payloadSize := declaredSize bytes
    if payloadSize > maxPayload then .error .payloadTooLarge
    else
      let total := recordHeaderSize + payloadSize + checksumSize
      if bytes.length < total then .error .truncated
      else
        let stored := UInt32.ofNat
          (BigEndian.load ((bytes.drop (recordHeaderSize + payloadSize)).take checksumSize))
        let computed := checksum (bytes.take (recordHeaderSize + payloadSize))
        if stored ≠ computed then .error .badChecksum
        else
          .ok (⟨UInt64.ofNat (BigEndian.load (bytes.take 8)),
              ⟨UInt16.ofNat (BigEndian.load ((bytes.drop 8).take 2))⟩,
              UInt64.ofNat (BigEndian.load ((bytes.drop 10).take 8)),
              (bytes.drop recordHeaderSize).take payloadSize⟩, total)

/-- The record at an offset and the offset behind it. -/
def decodeRecord (bytes : List UInt8) (offset : Nat) : Except LogError (LogRecord × Nat) :=
  if offset > bytes.length then .error .truncated
  else (decodeFrame (bytes.drop offset)).map (fun read => (read.1, offset + read.2))

structure LogReadResult where
  records : List LogRecord
  error : LogError
  deriving DecidableEq, Repr

/-- The loop of `read_log`; every record is at least one byte, so the number of bytes
bounds the iterations. -/
def readLoop (bytes : List UInt8) : Nat → Nat → LogReadResult → LogReadResult
  | 0, _, result => result
  | bound + 1, offset, result =>
    if offset < bytes.length then
      match decodeRecord bytes offset with
      | .error error => { result with error := error }
      | .ok (record, next) =>
        readLoop bytes bound next { result with records := result.records ++ [record] }
    else result

def readLog (bytes : List UInt8) : LogReadResult := readLoop bytes bytes.length 0 ⟨[], .none⟩

inductive TailState where
  | cleanTail
  | tornTail
  | corrupt
  deriving DecidableEq, Repr

structure LogRecovery where
  error : LogError
  tail : TailState
  tailError : LogError
  records : List LogRecord
  validBytes : Nat
  deriving DecidableEq, Repr

def checksumFailureConfinedToTail (bytes : List UInt8) (offset : Nat) : Bool :=
  offset + (recordHeaderSize + declaredSize (bytes.drop offset) + checksumSize) == bytes.length

def truncatedFailureConfinedToPartialHeader (bytes : List UInt8) (offset : Nat) : Bool :=
  bytes.length - offset < recordHeaderSize

def classifyTail (bytes : List UInt8) (tailError : LogError) (validBytes : Nat) : TailState :=
  match tailError with
  | .none => .cleanTail
  | .truncated =>
    if truncatedFailureConfinedToPartialHeader bytes validBytes then .tornTail else .corrupt
  | .badChecksum => if checksumFailureConfinedToTail bytes validBytes then .tornTail else .corrupt
  | .payloadTooLarge => .corrupt
  | .openFailed => .corrupt

/-- The loop of `recover_log`, which also keeps the last record boundary. -/
def recoverLoop (bytes : List UInt8) : Nat → Nat → LogRecovery → LogRecovery
  | 0, _, recovery => recovery
  | bound + 1, offset, recovery =>
    if offset < bytes.length then
      match decodeRecord bytes offset with
      | .error error => { recovery with tailError := error }
      | .ok (record, next) =>
        recoverLoop bytes bound next
          { recovery with records := recovery.records ++ [record], validBytes := next }
    else recovery

def recoverLog (bytes : List UInt8) : LogRecovery :=
  let recovery := recoverLoop bytes bytes.length 0 ⟨.none, .cleanTail, .none, [], 0⟩
  { recovery with tail := classifyTail bytes recovery.tailError recovery.validBytes }

/-- Truncate a torn tail. `resized` and `synced` are what the file system answers. -/
def repairLogFile (file : List UInt8) (recovery : LogRecovery) (resized synced : Bool) :
    List UInt8 × Bool :=
  if recovery.error ≠ .none ∨ recovery.tail = .corrupt then (file, false)
  else if recovery.tail = .cleanTail then (file, true)
  else if !resized then (file, false)
  else (file.take recovery.validBytes, synced)

/-- `EventLogReader::read_all`. -/
def readAll : Option (List UInt8) → LogReadResult
  | none => ⟨[], .openFailed⟩
  | some bytes => readLog bytes

end Qsl.EventLog
