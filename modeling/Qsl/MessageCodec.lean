import Qsl.FieldLayout
import Qsl.MarketDataPublisher
import Qsl.Protocol

/- The nine messages of the wire, each with its encoder and its decoder. -/
namespace Qsl

variable {byte : UInt8}

def OrderType.toByte : OrderType → UInt8
  | .limit => 0
  | .market => 1

/-- The cast from the byte and `is_valid` in one. -/
def RejectReason.ofByte? (byte : UInt8) : Option RejectReason :=
  match byte.toNat with
  | 0 => some .none
  | 1 => some .unknownSymbol
  | 2 => some .invalidPrice
  | 3 => some .invalidQuantity
  | 4 => some .invalidSide
  | 5 => some .maxQuantityExceeded
  | 6 => some .maxNotionalExceeded
  | 7 => some .duplicateOrderId
  | 8 => some .unknownOrder
  | 9 => some .storageExhausted
  | _ => Option.none

@[simp] theorem OrderType.ofByte?_toByte (type : OrderType) : ofByte? type.toByte = some type := by
  cases type <;> rfl

@[simp] theorem RejectReason.ofByte?_toByte (reason : RejectReason) :
    ofByte? reason.toByte = some reason := by
  cases reason <;> rfl

theorem Side.toByte_ofByte? {side : Side} (valid : ofByte? byte = some side) :
    side.toByte = byte := by
  unfold ofByte? at valid
  grind [toByte]

theorem TimeInForce.toByte_ofByte? {tif : TimeInForce} (valid : ofByte? byte = some tif) :
    tif.toByte = byte := by
  unfold ofByte? at valid
  grind [toByte]

theorem OrderType.toByte_ofByte? {type : OrderType} (valid : ofByte? byte = some type) :
    type.toByte = byte := by
  unfold ofByte? at valid
  grind [toByte]

theorem RejectReason.toByte_ofByte? {reason : RejectReason} (valid : ofByte? byte = some reason) :
    reason.toByte = byte := by
  unfold ofByte? at valid
  rw [← UInt8.toNat_inj]
  split at valid <;> cases valid <;> (rename_i number; exact number.symm)

structure MdTrade where
  mdSeq : SeqNo
  symbol : SymbolId
  price : Price
  quantity : Quantity
  deriving DecidableEq, Repr

structure MdTopOfBook where
  mdSeq : SeqNo
  symbol : SymbolId
  bestBid : Option Price
  bestAsk : Option Price
  deriving DecidableEq, Repr

/-- A trade as an alternative of the variant. -/
def MdTrade.message (msg : MdTrade) : MarketDataMessage :=
  .mdTrade msg.mdSeq msg.symbol msg.price msg.quantity

def MdTopOfBook.message (msg : MdTopOfBook) : MarketDataMessage :=
  .mdTopOfBook msg.mdSeq msg.symbol msg.bestBid msg.bestAsk

/-- Symbol (4), price (8) and quantity (4). -/
def mdTradeBody : Nat := 16

/-- Symbol (4), then a flag (1) and a price (8) for the bid and for the ask. -/
def mdTopOfBookBody : Nat := 22

namespace Protocol

open BigEndian (store loadAt)
open FieldLayout

def flag (present : Bool) : UInt8 := if present then 1 else 0

def NewOrder.encode (msg : NewOrder) (seq : SeqNo) : List UInt8 :=
  writeHeader ⟨.newOrder, protocolVersion, newOrderBodySize, seq⟩ ++
    assemble newOrderBodySize
      [(0, store 8 msg.orderId.toNat), (8, store 4 msg.symbol.toNat),
        (12, store 8 msg.price.toUInt64.toNat), (20, store 4 msg.quantity.toNat),
        (24, [msg.side.toByte]), (25, [msg.type.toByte]), (26, [msg.tif.toByte])]

def CancelOrder.encode (msg : CancelOrder) (seq : SeqNo) : List UInt8 :=
  writeHeader ⟨.cancelOrder, protocolVersion, cancelOrderBodySize, seq⟩ ++
    assemble cancelOrderBodySize [(0, store 8 msg.orderId.toNat), (8, store 4 msg.symbol.toNat)]

def Heartbeat.encode (msg : Heartbeat) : List UInt8 :=
  framed .heartbeat heartbeatBodySize (assemble heartbeatBodySize [(0, store 8 msg.token.toNat)])

/- The encoders of the other session messages list their fields in order; the offsets of the
source are those. -/

theorem HeartbeatAck.encode_eq (msg : HeartbeatAck) :
    msg.encode = framed .heartbeatAck heartbeatBodySize
      (assemble heartbeatBodySize [(0, store 8 msg.token.toNat)]) := by
  rw [assemble_tiles (by simp [Tiles, heartbeatBodySize])]
  simp [HeartbeatAck.encode]

theorem Ack.encode_eq (msg : Ack) :
    msg.encode = framed .ack ackBodySize
      (assemble ackBodySize [(0, store 8 msg.orderId.toNat), (8, store 8 msg.seq)]) := by
  rw [assemble_tiles (by simp [Tiles, ackBodySize])]
  simp [Ack.encode]

theorem Reject.encode_eq (msg : Reject) :
    msg.encode = framed .reject rejectBodySize
      (assemble rejectBodySize [(0, store 8 msg.orderId.toNat), (8, [msg.reason.toByte])]) := by
  rw [assemble_tiles (by simp [Tiles, rejectBodySize])]
  simp [Reject.encode]

theorem Fill.encode_eq (msg : Fill) :
    msg.encode = framed .fill fillBodySize
      (assemble fillBodySize
        [(0, store 8 msg.takerId.toNat), (8, store 8 msg.makerId.toNat),
          (16, store 8 msg.price.toUInt64.toNat), (24, store 4 msg.quantity.toNat),
          (28, store 8 msg.seq)]) := by
  rw [assemble_tiles (by simp [Tiles, fillBodySize])]
  simp [Fill.encode]

def decodeHeartbeatAck (frame : List UInt8) : Except DecodeError HeartbeatAck := do
  let b ← validateTyped frame .heartbeatAck heartbeatBodySize
  .ok ⟨UInt64.ofNat (loadAt b 0 8)⟩

def decodeAck (frame : List UInt8) : Except DecodeError Ack := do
  let b ← validateTyped frame .ack ackBodySize
  .ok ⟨UInt64.ofNat (loadAt b 0 8), loadAt b 8 8⟩

def decodeReject (frame : List UInt8) : Except DecodeError Reject := do
  let b ← validateTyped frame .reject rejectBodySize
  match RejectReason.ofByte? (b.getD 8 0) with
  | none => .error .invalidEnumValue
  | some reason => .ok ⟨UInt64.ofNat (loadAt b 0 8), reason⟩

def decodeFill (frame : List UInt8) : Except DecodeError Fill := do
  let b ← validateTyped frame .fill fillBodySize
  .ok ⟨UInt64.ofNat (loadAt b 0 8), UInt64.ofNat (loadAt b 8 8),
    (UInt64.ofNat (loadAt b 16 8)).toInt64, UInt32.ofNat (loadAt b 24 4), loadAt b 28 8⟩

end Protocol

open Protocol BigEndian FieldLayout

/- The market-data feed frames its own messages; the sequence number is the header's. -/

def MdTrade.encode (msg : MdTrade) : List UInt8 :=
  writeHeader ⟨.mdTrade, protocolVersion, mdTradeBody, msg.mdSeq⟩ ++
    assemble mdTradeBody
      [(0, store 4 msg.symbol.toNat), (4, store 8 msg.price.toUInt64.toNat),
        (12, store 4 msg.quantity.toNat)]

def MdTopOfBook.encode (msg : MdTopOfBook) : List UInt8 :=
  writeHeader ⟨.mdTopOfBook, protocolVersion, mdTopOfBookBody, msg.mdSeq⟩ ++
    assemble mdTopOfBookBody
      [(0, store 4 msg.symbol.toNat), (4, [flag msg.bestBid.isSome]),
        (5, store 8 (msg.bestBid.getD 0).toUInt64.toNat), (13, [flag msg.bestAsk.isSome]),
        (14, store 8 (msg.bestAsk.getD 0).toUInt64.toNat)]

def decodeMdTrade (frame : List UInt8) : Except DecodeError MdTrade := do
  let header ← decodeHeader frame
  let b ← validateTyped frame .mdTrade mdTradeBody
  .ok ⟨header.seqNo, UInt32.ofNat (loadAt b 0 4), (UInt64.ofNat (loadAt b 4 8)).toInt64,
    UInt32.ofNat (loadAt b 12 4)⟩

def decodeMdTopOfBook (frame : List UInt8) : Except DecodeError MdTopOfBook := do
  let header ← decodeHeader frame
  let b ← validateTyped frame .mdTopOfBook mdTopOfBookBody
  .ok ⟨header.seqNo, UInt32.ofNat (loadAt b 0 4),
    if b.getD 4 0 ≠ 0 then some (UInt64.ofNat (loadAt b 5 8)).toInt64 else none,
    if b.getD 13 0 ≠ 0 then some (UInt64.ofNat (loadAt b 14 8)).toInt64 else none⟩

def decodeMarketData (frame : List UInt8) : Option MarketDataMessage :=
  match decodeHeader frame with
  | .error _ => none
  | .ok header =>
    match header.type with
    | .mdTrade =>
      match decodeMdTrade frame with
      | .ok trade => some trade.message
      | .error _ => none
    | .mdTopOfBook =>
      match decodeMdTopOfBook frame with
      | .ok top => some top.message
      | .error _ => none
    | _ => none

end Qsl
