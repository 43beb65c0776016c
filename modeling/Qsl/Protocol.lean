import Qsl.OrderGateway

/- The binary wire format: frames of a header of sixteen bytes and a body. -/
namespace Qsl.Protocol

open BigEndian (store loadAt)

def protocolVersion : Nat := 1

/-- Type (2), version (2), body length (4) and sequence number (8). -/
def headerSize : Nat := 16

def maxBodyLen : Nat := 4096

inductive MsgType where
  | newOrder
  | cancelOrder
  | mdTrade
  | mdTopOfBook
  | heartbeat
  | heartbeatAck
  | ack
  | reject
  | fill
  deriving DecidableEq, Repr

namespace MsgType

def code : MsgType → Nat
  | .newOrder => 1
  | .cancelOrder => 2
  | .mdTrade => 3
  | .mdTopOfBook => 4
  | .heartbeat => 5
  | .heartbeatAck => 6
  | .ack => 7
  | .reject => 8
  | .fill => 9

/-- The cast from the 16-bit field and `is_known` in one. -/
def ofCode? (code : Nat) : Option MsgType :=
  match code with
  | 1 => some .newOrder
  | 2 => some .cancelOrder
  | 3 => some .mdTrade
  | 4 => some .mdTopOfBook
  | 5 => some .heartbeat
  | 6 => some .heartbeatAck
  | 7 => some .ack
  | 8 => some .reject
  | 9 => some .fill
  | _ => none

@[simp] theorem ofCode?_code (type : MsgType) : ofCode? type.code = some type := by
  cases type <;> rfl

end MsgType

structure MessageHeader where
  type : MsgType
  version : Nat
  bodyLen : Nat
  seqNo : SeqNo
  deriving DecidableEq, Repr

structure NewOrder where
  orderId : OrderId
  symbol : SymbolId
  price : Price
  quantity : Quantity
  side : Side
  type : OrderType
  tif : TimeInForce
  deriving DecidableEq, Repr

def newOrderBodySize : Nat := 27

structure CancelOrder where
  orderId : OrderId
  symbol : SymbolId
  deriving DecidableEq, Repr

def cancelOrderBodySize : Nat := 12

structure Heartbeat where
  token : UInt64
  deriving DecidableEq, Repr

structure HeartbeatAck where
  token : UInt64
  deriving DecidableEq, Repr

def heartbeatBodySize : Nat := 8

structure Ack where
  orderId : OrderId
  seq : SeqNo
  deriving DecidableEq, Repr

def ackBodySize : Nat := 16

structure Reject where
  orderId : OrderId
  reason : RejectReason
  deriving DecidableEq, Repr

def rejectBodySize : Nat := 9

structure Fill where
  takerId : OrderId
  makerId : OrderId
  price : Price
  quantity : Quantity
  seq : SeqNo
  deriving DecidableEq, Repr

def fillBodySize : Nat := 36

inductive DecodeError where
  | truncated
  | unsupportedVersion
  | unknownType
  | bodyTooLarge
  | bodyLengthMismatch
  | invalidEnumValue
  deriving DecidableEq, Repr

end Qsl.Protocol

namespace Qsl

def OrderType.ofByte? (byte : UInt8) : Option OrderType :=
  if byte = 0 then some .limit else if byte = 1 then some .market else none

def RejectReason.toByte : RejectReason → UInt8
  | .none => 0
  | .unknownSymbol => 1
  | .invalidPrice => 2
  | .invalidQuantity => 3
  | .invalidSide => 4
  | .maxQuantityExceeded => 5
  | .maxNotionalExceeded => 6
  | .duplicateOrderId => 7
  | .unknownOrder => 8
  | .storageExhausted => 9

end Qsl

namespace Qsl.Protocol

open BigEndian (store loadAt)

def writeHeader (header : MessageHeader) : List UInt8 :=
  store 2 header.type.code ++ store 2 header.version ++ store 4 header.bodyLen ++
    store 8 header.seqNo

/-- The header of a session message in front of its body. -/
def framed (type : MsgType) (bodySize : Nat) (body : List UInt8) : List UInt8 :=
  writeHeader ⟨type, protocolVersion, bodySize, 0⟩ ++ body

def HeartbeatAck.encode (msg : HeartbeatAck) : List UInt8 :=
  framed .heartbeatAck heartbeatBodySize (store 8 msg.token.toNat)

def Ack.encode (msg : Ack) : List UInt8 :=
  framed .ack ackBodySize (store 8 msg.orderId.toNat ++ store 8 msg.seq)

def Reject.encode (msg : Reject) : List UInt8 :=
  framed .reject rejectBodySize (store 8 msg.orderId.toNat ++ [msg.reason.toByte])

def Fill.encode (msg : Fill) : List UInt8 :=
  framed .fill fillBodySize (store 8 msg.takerId.toNat ++ store 8 msg.makerId.toNat ++
    store 8 msg.price.toUInt64.toNat ++ store 4 msg.quantity.toNat ++ store 8 msg.seq)

def decodeHeader (bytes : List UInt8) : Except DecodeError MessageHeader :=
  if bytes.length < headerSize then .error .truncated
  else
    let version := loadAt bytes 2 2
    let bodyLen := loadAt bytes 4 4
    let seqNo := loadAt bytes 8 8
    if version ≠ protocolVersion then .error .unsupportedVersion
    else
      match MsgType.ofCode? (loadAt bytes 0 2) with
      | none => .error .unknownType
      | some type =>
        if bodyLen > maxBodyLen then .error .bodyTooLarge
        else .ok ⟨type, version, bodyLen, seqNo⟩

/-- The checks that every typed decoder makes first; the answer is the body. -/
def validateTyped (frame : List UInt8) (expected : MsgType) (bodySize : Nat) :
    Except DecodeError (List UInt8) := do
  let header ← decodeHeader frame
  if header.type ≠ expected then .error .unknownType
  else if header.bodyLen ≠ bodySize then .error .bodyLengthMismatch
  else if frame.length < headerSize + bodySize then .error .truncated
  else .ok (frame.drop headerSize)

def decodeNewOrder (frame : List UInt8) : Except DecodeError NewOrder := do
  let b ← validateTyped frame .newOrder newOrderBodySize
  match Side.ofByte? (b.getD 24 0), OrderType.ofByte? (b.getD 25 0),
      TimeInForce.ofByte? (b.getD 26 0) with
  | some side, some type, some tif =>
    .ok ⟨UInt64.ofNat (loadAt b 0 8), UInt32.ofNat (loadAt b 8 4),
      (UInt64.ofNat (loadAt b 12 8)).toInt64, UInt32.ofNat (loadAt b 20 4), side, type, tif⟩
  | _, _, _ => .error .invalidEnumValue

def decodeCancelOrder (frame : List UInt8) : Except DecodeError CancelOrder := do
  let b ← validateTyped frame .cancelOrder cancelOrderBodySize
  .ok ⟨UInt64.ofNat (loadAt b 0 8), UInt32.ofNat (loadAt b 8 4)⟩

def decodeHeartbeat (frame : List UInt8) : Except DecodeError Heartbeat := do
  let b ← validateTyped frame .heartbeat heartbeatBodySize
  .ok ⟨UInt64.ofNat (loadAt b 0 8)⟩

/-- The header is read from the first sixteen bytes. -/
theorem decodeHeader_congr {bytes others : List UInt8} (length : headerSize ≤ bytes.length)
    (length' : headerSize ≤ others.length) (same : bytes.take headerSize = others.take headerSize) :
    decodeHeader bytes = decodeHeader others := by
  have fields : ∀ offset width, offset + width ≤ headerSize →
      loadAt bytes offset width = loadAt others offset width := by
    intro offset width inside
    have cut : ∀ list : List UInt8, (list.drop offset).take width =
        ((list.take headerSize).drop offset).take width := by
      intro list
      rw [List.drop_take, List.take_take, Nat.min_eq_left (by omega)]
    rw [loadAt, loadAt, cut, same, ← cut]
  unfold decodeHeader
  rw [if_neg (Nat.not_lt.mpr length), if_neg (Nat.not_lt.mpr length'), fields 0 2 (by decide),
    fields 2 2 (by decide), fields 4 4 (by decide), fields 8 8 (by decide)]

@[simp] theorem writeHeader_length (header : MessageHeader) :
    (writeHeader header).length = headerSize := by
  simp [writeHeader, headerSize]

theorem framed_length (type : MsgType) (bodySize : Nat) (body : List UInt8) :
    (framed type bodySize body).length = headerSize + body.length := by
  rw [framed, List.length_append, writeHeader_length]

@[simp] theorem HeartbeatAck.encode_length (msg : HeartbeatAck) :
    msg.encode.length = headerSize + heartbeatBodySize := by
  rw [encode, framed_length, BigEndian.store_length]
  rfl

@[simp] theorem Ack.encode_length (msg : Ack) : msg.encode.length = headerSize + ackBodySize := by
  simp [encode, framed_length, ackBodySize]

@[simp] theorem Reject.encode_length (msg : Reject) :
    msg.encode.length = headerSize + rejectBodySize := by
  simp [encode, framed_length, rejectBodySize]

@[simp] theorem Fill.encode_length (msg : Fill) :
    msg.encode.length = headerSize + fillBodySize := by
  simp [encode, framed_length, fillBodySize]

end Qsl.Protocol
