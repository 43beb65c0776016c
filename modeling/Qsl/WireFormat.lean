import Qsl.MessageCodec

/- The wire format as a whole: one value for each of the nine message types, what its frame is,
and what each decoder makes of a frame. -/
namespace Qsl

open List
open Protocol BigEndian FieldLayout

variable {header : MessageHeader}

inductive Message where
  | newOrder (msg : NewOrder)
  | cancelOrder (msg : CancelOrder)
  | mdTrade (msg : MdTrade)
  | mdTopOfBook (msg : MdTopOfBook)
  | heartbeat (msg : Heartbeat)
  | heartbeatAck (msg : HeartbeatAck)
  | ack (msg : Ack)
  | reject (msg : Reject)
  | fill (msg : Fill)
  deriving DecidableEq, Repr

namespace Message

def type : Message → MsgType
  | .newOrder _ => .newOrder
  | .cancelOrder _ => .cancelOrder
  | .mdTrade _ => .mdTrade
  | .mdTopOfBook _ => .mdTopOfBook
  | .heartbeat _ => .heartbeat
  | .heartbeatAck _ => .heartbeatAck
  | .ack _ => .ack
  | .reject _ => .reject
  | .fill _ => .fill

/-- The encoder of the message's type; the orders are given their sequence number. -/
def encode (seq : SeqNo) : Message → List UInt8
  | .newOrder msg => msg.encode seq
  | .cancelOrder msg => msg.encode seq
  | .mdTrade msg => msg.encode
  | .mdTopOfBook msg => msg.encode
  | .heartbeat msg => msg.encode
  | .heartbeatAck msg => msg.encode
  | .ack msg => msg.encode
  | .reject msg => msg.encode
  | .fill msg => msg.encode

/-- The sequence number of the header: a message of the feed brings its own, a session message
has none. -/
def headerSeq (seq : SeqNo) : Message → SeqNo
  | .newOrder _ => seq
  | .cancelOrder _ => seq
  | .mdTrade msg => msg.mdSeq
  | .mdTopOfBook msg => msg.mdSeq
  | _ => 0

/-- The sequence numbers in the message have the 64 bits of the source's type. -/
def Fits : Message → Prop
  | .mdTrade msg => msg.mdSeq < 2 ^ 64
  | .mdTopOfBook msg => msg.mdSeq < 2 ^ 64
  | .ack msg => msg.seq < 2 ^ 64
  | .fill msg => msg.seq < 2 ^ 64
  | _ => True

/-- The fields of the body, one behind the other. -/
def body : Message → List UInt8
  | .newOrder msg =>
    store 8 msg.orderId.toNat ++ (store 4 msg.symbol.toNat ++
      (store 8 msg.price.toUInt64.toNat ++ (store 4 msg.quantity.toNat ++
        [msg.side.toByte, msg.type.toByte, msg.tif.toByte])))
  | .cancelOrder msg => store 8 msg.orderId.toNat ++ store 4 msg.symbol.toNat
  | .mdTrade msg =>
    store 4 msg.symbol.toNat ++ (store 8 msg.price.toUInt64.toNat ++ store 4 msg.quantity.toNat)
  | .mdTopOfBook msg =>
    store 4 msg.symbol.toNat ++ (flag msg.bestBid.isSome ::
      (store 8 (msg.bestBid.getD 0).toUInt64.toNat ++ (flag msg.bestAsk.isSome ::
        store 8 (msg.bestAsk.getD 0).toUInt64.toNat)))
  | .heartbeat msg => store 8 msg.token.toNat
  | .heartbeatAck msg => store 8 msg.token.toNat
  | .ack msg => store 8 msg.orderId.toNat ++ store 8 msg.seq
  | .reject msg => store 8 msg.orderId.toNat ++ [msg.reason.toByte]
  | .fill msg =>
    store 8 msg.takerId.toNat ++ (store 8 msg.makerId.toNat ++
      (store 8 msg.price.toUInt64.toNat ++ (store 4 msg.quantity.toNat ++ store 8 msg.seq)))

end Message

namespace Protocol.MsgType

def bodySize : MsgType → Nat
  | .newOrder => newOrderBodySize
  | .cancelOrder => cancelOrderBodySize
  | .mdTrade => mdTradeBody
  | .mdTopOfBook => mdTopOfBookBody
  | .heartbeat => heartbeatBodySize
  | .heartbeatAck => heartbeatBodySize
  | .ack => ackBodySize
  | .reject => rejectBodySize
  | .fill => fillBodySize

/-- The session messages, whose encoder writes no sequence number. -/
def isSession : MsgType → Bool
  | .heartbeat => true
  | .heartbeatAck => true
  | .ack => true
  | .reject => true
  | .fill => true
  | _ => false

/-- The typed decoder of a message type. -/
def decode (type : MsgType) (frame : List UInt8) : Except DecodeError Message :=
  match type with
  | .newOrder => .newOrder <$> decodeNewOrder frame
  | .cancelOrder => .cancelOrder <$> decodeCancelOrder frame
  | .mdTrade => .mdTrade <$> decodeMdTrade frame
  | .mdTopOfBook => .mdTopOfBook <$> decodeMdTopOfBook frame
  | .heartbeat => .heartbeat <$> decodeHeartbeat frame
  | .heartbeatAck => .heartbeatAck <$> decodeHeartbeatAck frame
  | .ack => .ack <$> decodeAck frame
  | .reject => .reject <$> decodeReject frame
  | .fill => .fill <$> decodeFill frame

end Protocol.MsgType

section Header

/-- A header is read back, whatever follows. -/
theorem decodeHeader_writeHeader (type : MsgType) {bodyLen seqNo : Nat}
    (small : bodyLen ≤ maxBodyLen) (fits : seqNo < 2 ^ 64) (rest : List UInt8) :
    decodeHeader (writeHeader ⟨type, protocolVersion, bodyLen, seqNo⟩ ++ rest) =
      .ok ⟨type, protocolVersion, bodyLen, seqNo⟩ := by
  have code : type.code < 256 ^ 2 := by cases type <;> decide
  have version : protocolVersion < 256 ^ 2 := by decide
  have length : bodyLen < 256 ^ 4 := by
    have top : maxBodyLen < 256 ^ 4 := by decide
    omega
  have long :
      ¬ (writeHeader ⟨type, protocolVersion, bodyLen, seqNo⟩ ++ rest).length < headerSize := by
    rw [length_append, writeHeader_length]
    omega
  rw [decodeHeader, if_neg long]
  simp only [writeHeader, append_assoc]
  rw [loadAt_store _ code, loadAt_next 2 _ (by decide), loadAt_store _ version,
    loadAt_next 4 _ (by decide), loadAt_next 4 _ (by decide), loadAt_store _ length,
    loadAt_next 8 _ (by decide), loadAt_next 8 _ (by decide), loadAt_next 8 _ (by decide),
    loadAt_store _ fits, MsgType.ofCode?_code]
  simp [small]

theorem ofCode?_some {code : Nat} {type : MsgType} (known : MsgType.ofCode? code = some type) :
    code = type.code := by
  unfold MsgType.ofCode? at known
  split at known <;> cases known <;> rfl

/-- A header that was read is written back as it stood, its sequence number apart. -/
theorem writeHeader_decodeHeader {frame : List UInt8} (decoded : decodeHeader frame = .ok header)
    (seq : SeqNo) :
    header.version = protocolVersion ∧
      writeHeader { header with seqNo := seq } = slice frame 0 8 ++ store 8 seq ∧
      store 8 header.seqNo = slice frame 8 8 := by
  unfold decodeHeader at decoded
  split at decoded
  · cases decoded
  · rename_i short
    have long : headerSize ≤ frame.length := Nat.le_of_not_lt short
    have long : 16 ≤ frame.length := long
    simp only at decoded
    split at decoded
    · cases decoded
    · rename_i current
      split at decoded
      · cases decoded
      · rename_i type known
        split at decoded
        · cases decoded
        · cases decoded
          refine ⟨not_not.mp current, ?_, store_loadAt (by omega)⟩
          simp only [writeHeader, ← ofCode?_some known]
          rw [store_loadAt (by omega), store_loadAt (by omega), store_loadAt (by omega),
            slice_append frame 0 2 2, slice_append frame 0 4 4]

section Frame

variable (type : MsgType) {body : List UInt8} {seqNo : Nat} (small : body.length ≤ maxBodyLen)
  (fits : seqNo < 2 ^ 64) (trailing : List UInt8)

include small fits

/-- Frames of the type pass the checks that a typed decoder makes first. -/
theorem validateTyped_frame :
    validateTyped (writeHeader ⟨type, protocolVersion, body.length, seqNo⟩ ++ (body ++ trailing))
      type body.length = .ok (body ++ trailing) := by
  have decoded := decodeHeader_writeHeader type small fits (body ++ trailing)
  have whole : ¬ (writeHeader ⟨type, protocolVersion, body.length, seqNo⟩ ++
      (body ++ trailing)).length < headerSize + body.length := by
    rw [length_append, length_append, writeHeader_length]
    omega
  simp only [validateTyped, decoded, bind, Except.bind, ne_eq, not_true_eq_false, if_false, whole]
  rw [drop_left' (writeHeader_length _)]

/-- Frames of another type do not. -/
theorem validateTyped_other {other : MsgType} (differ : other ≠ type) (size : Nat) :
    validateTyped (writeHeader ⟨type, protocolVersion, body.length, seqNo⟩ ++ (body ++ trailing))
      other size = .error .unknownType := by
  have decoded := decodeHeader_writeHeader type small fits (body ++ trailing)
  simp only [validateTyped, decoded, bind, Except.bind, ne_eq, differ.symm, not_false_eq_true,
    if_true]

end Frame

/-- What a frame is that passed them. -/
theorem validateTyped_ok {frame b : List UInt8} {type : MsgType} {size : Nat}
    (passed : validateTyped frame type size = .ok b) :
    ∃ seqNo, decodeHeader frame = .ok ⟨type, protocolVersion, size, seqNo⟩ ∧
      headerSize + size ≤ frame.length ∧ b = frame.drop headerSize := by
  unfold validateTyped at passed
  cases decoded : decodeHeader frame with
  | error reason =>
    rw [decoded] at passed
    cases passed
  | ok header =>
    have version := (writeHeader_decodeHeader decoded 0).1
    obtain ⟨found, current, bodyLen, seqNo⟩ := header
    simp only [decoded, bind, Except.bind] at passed
    split at passed
    · cases passed
    · rename_i expected
      split at passed
      · cases passed
      · rename_i sized
        split at passed
        · cases passed
        · rename_i whole
          cases passed
          simp only [ne_eq, not_not] at expected sized version
          subst expected sized version
          exact ⟨seqNo, rfl, Nat.le_of_not_lt whole, rfl⟩

end Header

namespace Message

theorem body_length (msg : Message) : msg.body.length = msg.type.bodySize := by
  cases msg <;>
    simp [body, type, MsgType.bodySize, newOrderBodySize, cancelOrderBodySize, mdTradeBody,
      mdTopOfBookBody, heartbeatBodySize, ackBodySize, rejectBodySize, fillBodySize]

theorem body_small (msg : Message) : msg.body.length ≤ maxBodyLen := by
  rw [body_length]
  cases msg.type <;> decide

/-- A frame is the header and the fields. -/
theorem encode_eq (msg : Message) (seq : SeqNo) :
    msg.encode seq =
      writeHeader ⟨msg.type, protocolVersion, msg.body.length, msg.headerSeq seq⟩ ++ msg.body := by
  rw [body_length]
  cases msg with
  | newOrder msg =>
    rw [encode, NewOrder.encode, assemble_tiles (by simp [Tiles, newOrderBodySize])]
    simp [body, type, MsgType.bodySize, headerSeq]
  | cancelOrder msg =>
    rw [encode, CancelOrder.encode, assemble_tiles (by simp [Tiles, cancelOrderBodySize])]
    simp [body, type, MsgType.bodySize, headerSeq]
  | mdTrade msg =>
    rw [encode, MdTrade.encode, assemble_tiles (by simp [Tiles, mdTradeBody])]
    simp [body, type, MsgType.bodySize, headerSeq]
  | mdTopOfBook msg =>
    rw [encode, MdTopOfBook.encode, assemble_tiles (by simp [Tiles, mdTopOfBookBody])]
    simp [body, type, MsgType.bodySize, headerSeq]
  | heartbeat msg =>
    rw [encode, Heartbeat.encode, assemble_tiles (by simp [Tiles, heartbeatBodySize])]
    simp [body, type, MsgType.bodySize, headerSeq, framed]
  | fill msg =>
    simp [encode, Fill.encode, framed, body, type, MsgType.bodySize, headerSeq]
  | _ => rfl

/-- The decoder of the type gives the message back from a frame that has its body. -/
theorem decode_body (msg : Message) (fits : msg.Fits) {seq : SeqNo} {frame trailing : List UInt8}
    (decoded : decodeHeader frame = .ok header) (numbered : header.seqNo = msg.headerSeq seq)
    (passed : validateTyped frame msg.type msg.type.bodySize = .ok (msg.body ++ trailing)) :
    msg.type.decode frame = .ok msg := by
  cases msg with
  | newOrder msg =>
    have passed : validateTyped frame .newOrder newOrderBodySize = .ok _ := passed
    simp [type, MsgType.decode, decodeNewOrder, passed, body, bind, Except.bind, loadAt_next,
      getElem?_next, loadAt_here_UInt64, loadAt_here_UInt32]
  | cancelOrder msg =>
    have passed : validateTyped frame .cancelOrder cancelOrderBodySize = .ok _ := passed
    simp [type, MsgType.decode, decodeCancelOrder, passed, body, bind, Except.bind, loadAt_next,
      loadAt_here_UInt64, loadAt_here_UInt32]
  | mdTrade msg =>
    have passed : validateTyped frame .mdTrade mdTradeBody = .ok _ := passed
    simp [type, MsgType.decode, decodeMdTrade, decoded, numbered, passed, body, bind, Except.bind,
      loadAt_next, loadAt_here_UInt64, loadAt_here_UInt32]
    rfl
  | mdTopOfBook msg =>
    have passed : validateTyped frame .mdTopOfBook mdTopOfBookBody = .ok _ := passed
    obtain ⟨mdSeq, symbol, bestBid, bestAsk⟩ := msg
    have numbered : header.seqNo = mdSeq := numbered
    cases bestBid <;> cases bestAsk <;>
      simp [type, MsgType.decode, decodeMdTopOfBook, decoded, numbered, headerSeq, passed, body,
        flag, bind, Except.bind, loadAt_next, loadAt_byte, getElem?_next, loadAt_here_UInt64,
        loadAt_here_UInt32]
  | heartbeat msg =>
    have passed : validateTyped frame .heartbeat heartbeatBodySize = .ok _ := passed
    simp [type, MsgType.decode, decodeHeartbeat, passed, body, bind, Except.bind,
      loadAt_here_UInt64]
  | heartbeatAck msg =>
    have passed : validateTyped frame .heartbeatAck heartbeatBodySize = .ok _ := passed
    simp [type, MsgType.decode, decodeHeartbeatAck, passed, body, bind, Except.bind,
      loadAt_here_UInt64]
  | ack msg =>
    have passed : validateTyped frame .ack ackBodySize = .ok _ := passed
    have fits : msg.seq < 256 ^ 8 := fits
    simp [type, MsgType.decode, decodeAck, passed, body, bind, Except.bind, loadAt_next,
      loadAt_here_UInt64, loadAt_store _ fits]
  | reject msg =>
    have passed : validateTyped frame .reject rejectBodySize = .ok _ := passed
    simp [type, MsgType.decode, decodeReject, passed, body, bind, Except.bind,
      loadAt_here_UInt64]
  | fill msg =>
    have passed : validateTyped frame .fill fillBodySize = .ok _ := passed
    have fits : msg.seq < 256 ^ 8 := fits
    simp [type, MsgType.decode, decodeFill, passed, body, bind, Except.bind, loadAt_next,
      loadAt_here_UInt64, loadAt_here_UInt32, loadAt_store _ fits]

theorem encode_length (msg : Message) (seq : SeqNo) :
    (msg.encode seq).length = headerSize + msg.type.bodySize := by
  rw [encode_eq, length_append, writeHeader_length, body_length]

theorem encode_append (msg : Message) (seq : SeqNo) (trailing : List UInt8) :
    msg.encode seq ++ trailing =
      writeHeader ⟨msg.type, protocolVersion, msg.body.length, msg.headerSeq seq⟩ ++
        (msg.body ++ trailing) := by
  rw [encode_eq, body_length, append_assoc]

theorem headerSeq_lt {msg : Message} (fits : msg.Fits) {seq : SeqNo} (numbered : seq < 2 ^ 64) :
    msg.headerSeq seq < 2 ^ 64 := by
  cases msg with
  | newOrder _ | cancelOrder _ => exact numbered
  | mdTrade _ | mdTopOfBook _ => exact fits
  | heartbeat _ | heartbeatAck _ | ack _ | reject _ | fill _ => exact Nat.two_pow_pos 64

section RoundTrip

variable {msg : Message} (fits : msg.Fits) {seq : SeqNo} (numbered : seq < 2 ^ 64)
  (trailing : List UInt8)

include fits numbered

theorem decodeHeader_encode :
    decodeHeader (msg.encode seq ++ trailing) =
      .ok ⟨msg.type, protocolVersion, msg.type.bodySize, msg.headerSeq seq⟩ := by
  rw [encode_append, decodeHeader_writeHeader _ msg.body_small (headerSeq_lt fits numbered),
    body_length]

theorem decode_encode : msg.type.decode (msg.encode seq ++ trailing) = .ok msg := by
  have passed := validateTyped_frame msg.type msg.body_small (headerSeq_lt fits numbered) trailing
  rw [← encode_append, body_length] at passed
  exact decode_body msg fits (decodeHeader_encode fits numbered trailing) rfl passed

end RoundTrip

end Message

namespace Protocol.MsgType

variable {type : MsgType} {frame b : List UInt8} {msg : Message}

/-- What a decoder accepted: a body that passed the checks, and the message that it holds. -/
theorem decode_ok (accepted : type.decode frame = .ok msg) :
    ∃ b, validateTyped frame type type.bodySize = .ok b ∧ msg.type = type ∧
      (type ≠ .mdTopOfBook → type.bodySize ≤ b.length → msg.body = slice b 0 type.bodySize) := by
  cases type with
  | newOrder =>
    obtain ⟨order, read, rfl⟩ := map_ok accepted
    obtain ⟨b, passed, read⟩ := bind_ok read
    refine ⟨b, passed, ?_⟩
    split at read
    · rename_i side type tif sided typed timed
      cases read
      refine ⟨rfl, fun _ long => ?_⟩
      have long : 27 ≤ b.length := long
      simp only [Message.body, Side.toByte_ofByte? sided, OrderType.toByte_ofByte? typed,
        TimeInForce.toByte_ofByte? timed, UInt64.toUInt64_toInt64]
      rw [store_loadAt_UInt64 (by omega), store_loadAt_UInt32 (by omega),
        store_loadAt_UInt64 (by omega), store_loadAt_UInt32 (by omega)]
      have flags : [b.getD 24 0, b.getD 25 0, b.getD 26 0] = slice b 24 3 := by
        rw [← slice_append b 24 1 2, ← slice_append b 25 1 1, ← getD_slice (by omega) 0,
          ← getD_slice (by omega) 0, ← getD_slice (by omega) 0]
        rfl
      rw [flags, slice_append b 20 4 3, slice_append b 12 8 7, slice_append b 8 4 15,
        slice_append b 0 8 19]
      rfl
    · cases read
  | cancelOrder =>
    obtain ⟨order, read, rfl⟩ := map_ok accepted
    obtain ⟨b, passed, read⟩ := bind_ok read
    cases read
    refine ⟨b, passed, rfl, fun _ long => ?_⟩
    have long : 12 ≤ b.length := long
    simp only [Message.body]
    rw [store_loadAt_UInt64 (by omega), store_loadAt_UInt32 (by omega), slice_append b 0 8 4]
    rfl
  | mdTrade =>
    obtain ⟨trade, read, rfl⟩ := map_ok accepted
    obtain ⟨header, decoded, read⟩ := bind_ok read
    obtain ⟨b, passed, read⟩ := bind_ok read
    cases read
    refine ⟨b, passed, rfl, fun _ long => ?_⟩
    have long : 16 ≤ b.length := long
    simp only [Message.body, UInt64.toUInt64_toInt64]
    rw [store_loadAt_UInt32 (by omega), store_loadAt_UInt64 (by omega),
      store_loadAt_UInt32 (by omega), slice_append b 4 8 4, slice_append b 0 4 12]
    rfl
  | mdTopOfBook =>
    obtain ⟨top, read, rfl⟩ := map_ok accepted
    obtain ⟨header, decoded, read⟩ := bind_ok read
    obtain ⟨b, passed, read⟩ := bind_ok read
    exact ⟨b, passed, rfl, fun excluded => absurd rfl excluded⟩
  | heartbeat =>
    obtain ⟨heartbeat, read, rfl⟩ := map_ok accepted
    obtain ⟨b, passed, read⟩ := bind_ok read
    cases read
    exact ⟨b, passed, rfl, fun _ long => @store_loadAt_UInt64 b 0 long⟩
  | heartbeatAck =>
    obtain ⟨ack, read, rfl⟩ := map_ok accepted
    obtain ⟨b, passed, read⟩ := bind_ok read
    cases read
    exact ⟨b, passed, rfl, fun _ long => @store_loadAt_UInt64 b 0 long⟩
  | ack =>
    obtain ⟨ack, read, rfl⟩ := map_ok accepted
    obtain ⟨b, passed, read⟩ := bind_ok read
    cases read
    refine ⟨b, passed, rfl, fun _ long => ?_⟩
    have long : 16 ≤ b.length := long
    simp only [Message.body]
    rw [store_loadAt_UInt64 (by omega), store_loadAt (by omega), slice_append b 0 8 8]
    rfl
  | reject =>
    obtain ⟨reject, read, rfl⟩ := map_ok accepted
    obtain ⟨b, passed, read⟩ := bind_ok read
    refine ⟨b, passed, ?_⟩
    split at read
    · cases read
    · rename_i reason known
      cases read
      refine ⟨rfl, fun _ long => ?_⟩
      have long : 9 ≤ b.length := long
      simp only [Message.body, RejectReason.toByte_ofByte? known]
      rw [store_loadAt_UInt64 (by omega), getD_slice (by omega), slice_append b 0 8 1]
      rfl
  | fill =>
    obtain ⟨fill, read, rfl⟩ := map_ok accepted
    obtain ⟨b, passed, read⟩ := bind_ok read
    cases read
    refine ⟨b, passed, rfl, fun _ long => ?_⟩
    have long : 36 ≤ b.length := long
    simp only [Message.body, UInt64.toUInt64_toInt64]
    rw [store_loadAt_UInt64 (by omega), store_loadAt_UInt64 (by omega),
      store_loadAt_UInt64 (by omega), store_loadAt_UInt32 (by omega), store_loadAt (by omega),
      slice_append b 24 4 8, slice_append b 16 8 12, slice_append b 8 8 20,
      slice_append b 0 8 28]
    rfl

/-- The header's sequence number belongs to what was decoded, except in a session message. -/
theorem decode_headerSeq (accepted : type.decode frame = .ok msg)
    (decoded : decodeHeader frame = .ok header) :
    msg.headerSeq header.seqNo = if type.isSession then 0 else header.seqNo := by
  cases type with
  | newOrder | cancelOrder | heartbeat | heartbeatAck | ack | reject | fill =>
    obtain ⟨value, -, rfl⟩ := map_ok accepted
    rfl
  | mdTrade | mdTopOfBook =>
    obtain ⟨value, read, rfl⟩ := map_ok accepted
    obtain ⟨found, read', read⟩ := bind_ok read
    obtain ⟨b, -, read⟩ := bind_ok read
    cases read'.symm.trans decoded
    cases read
    rfl

/-- A frame is of one type only. -/
theorem decode_other {other : MsgType} (fits : msg.Fits) {seq : SeqNo} (numbered : seq < 2 ^ 64)
    (trailing : List UInt8) (differ : other ≠ msg.type) :
    ∃ reason, other.decode (msg.encode seq ++ trailing) = .error reason := by
  cases accepted : other.decode (msg.encode seq ++ trailing) with
  | error reason => exact ⟨reason, rfl⟩
  | ok found =>
    obtain ⟨b, passed, -⟩ := decode_ok accepted
    rw [Message.encode_append, validateTyped_other msg.type msg.body_small
      (Message.headerSeq_lt fits numbered) trailing differ] at passed
    cases passed

/-- What was decoded is encoded as it stood in the frame. -/
theorem encode_decode (covered : type ≠ .mdTopOfBook) (accepted : type.decode frame = .ok msg) :
    ∃ header, decodeHeader frame = .ok header ∧
      msg.encode header.seqNo =
        if type.isSession then writeAt (frame.take (headerSize + type.bodySize)) 8 (store 8 0)
        else frame.take (headerSize + type.bodySize) := by
  obtain ⟨b, passed, same, bodied⟩ := decode_ok accepted
  obtain ⟨seqNo, decoded, whole, rfl⟩ := validateTyped_ok passed
  refine ⟨_, decoded, ?_⟩
  have long : type.bodySize ≤ (frame.drop headerSize).length := by
    rw [length_drop]
    omega
  have numbered := decode_headerSeq accepted decoded
  have body : slice (frame.drop headerSize) 0 type.bodySize = slice frame 16 type.bodySize := rfl
  have header : ∀ seq, writeHeader ⟨type, protocolVersion, type.bodySize, seq⟩ =
      slice frame 0 8 ++ store 8 seq := fun seq => (writeHeader_decodeHeader decoded seq).2.1
  have stored : store 8 seqNo = slice frame 8 8 := (writeHeader_decodeHeader decoded 0).2.2
  rw [Message.encode_eq, Message.body_length, same, numbered, bodied covered long, body, header]
  split
  · have front : min 8 (headerSize + type.bodySize) = 8 := by
      unfold headerSize
      omega
    rw [writeAt, store_length, take_take, front, drop_take]
    simp only [slice, headerSize, Nat.add_sub_cancel_left, drop_zero]
  · rw [stored, slice_append frame 0 8 8, slice_append frame 0 16]
    rfl

/-- The decoder of the feed chooses between the two typed ones. -/
theorem decodeMarketData_iff (frame : List UInt8) (value : MarketDataMessage) :
    decodeMarketData frame = some value ↔
      (∃ trade, decodeMdTrade frame = .ok trade ∧ value = trade.message) ∨
      ∃ top, decodeMdTopOfBook frame = .ok top ∧ value = top.message := by
  have typed : ∀ {type : MsgType} {size : Nat} {b : List UInt8},
      validateTyped frame type size = .ok b → ∃ header, decodeHeader frame = .ok header ∧
        header.type = type := by
    intro type size b passed
    obtain ⟨seqNo, decoded, -⟩ := validateTyped_ok passed
    exact ⟨_, decoded, rfl⟩
  constructor
  · intro found
    unfold decodeMarketData at found
    split at found
    · cases found
    · split at found
      · split at found
        · rename_i trade accepted
          cases found
          exact .inl ⟨trade, accepted, rfl⟩
        · cases found
      · split at found
        · rename_i top accepted
          cases found
          exact .inr ⟨top, accepted, rfl⟩
        · cases found
      · cases found
  · rintro (⟨trade, accepted, rfl⟩ | ⟨top, accepted, rfl⟩)
    · obtain ⟨found, -, read⟩ := bind_ok accepted
      obtain ⟨b, passed, -⟩ := bind_ok read
      obtain ⟨header, decoded, kind⟩ := typed passed
      simp only [decodeMarketData, decoded, kind, accepted]
    · obtain ⟨found, -, read⟩ := bind_ok accepted
      obtain ⟨b, passed, -⟩ := bind_ok read
      obtain ⟨header, decoded, kind⟩ := typed passed
      simp only [decodeMarketData, decoded, kind, accepted]

end Protocol.MsgType

/-- The wire format is lossless and unambiguous: an encoded message is decoded by its own type's
decoder only, whatever follows it; an accepted frame is encoded again as it stood; and the feed's
decoder is the two typed ones. -/
theorem wire_format_lossless :
    (∀ (msg : Message) (seq : SeqNo) (trailing : List UInt8), msg.Fits → seq < 2 ^ 64 →
      msg.type.decode (msg.encode seq ++ trailing) = .ok msg ∧
      decodeHeader (msg.encode seq ++ trailing) =
        .ok ⟨msg.type, protocolVersion, msg.type.bodySize, msg.headerSeq seq⟩ ∧
      ∀ other, other ≠ msg.type →
        ∃ reason, other.decode (msg.encode seq ++ trailing) = .error reason) ∧
    (∀ (type : MsgType) (frame : List UInt8) (msg : Message), type ≠ .mdTopOfBook →
      type.decode frame = .ok msg →
      ∃ header, decodeHeader frame = .ok header ∧
        msg.encode header.seqNo =
          if type.isSession then writeAt (frame.take (headerSize + type.bodySize)) 8 (store 8 0)
          else frame.take (headerSize + type.bodySize)) ∧
    ∀ (frame : List UInt8) (value : MarketDataMessage),
      decodeMarketData frame = some value ↔
        (∃ trade, decodeMdTrade frame = .ok trade ∧ value = trade.message) ∨
        ∃ top, decodeMdTopOfBook frame = .ok top ∧ value = top.message := by
  refine ⟨?_, ?_, MsgType.decodeMarketData_iff⟩
  · intro msg seq trailing fits numbered
    exact ⟨Message.decode_encode fits numbered trailing,
      Message.decodeHeader_encode fits numbered trailing,
      fun other differ => MsgType.decode_other fits numbered trailing differ⟩
  · intro type frame msg covered accepted
    exact MsgType.encode_decode covered accepted

end Qsl
