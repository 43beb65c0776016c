import Qsl.Decimal
import Qsl.DelimitedText
import Qsl.FieldLayout
import Qsl.Protocol

/- The FIX-like text protocol: tag=value fields in the 8/9/35/.../10 envelope, for the same order
messages as the binary codec. -/
namespace Qsl.Protocol.Fix

open Decimal DelimitedText
open FieldLayout (slice)

def ascii (letter : Char) : UInt8 := UInt8.ofNat letter.toNat

/-- The field separator. -/
def soh : UInt8 := 1

def equals : UInt8 := ascii '='

def beginString : List UInt8 := ['F', 'I', 'X', '.', '4', '.', '2'].map ascii

def maxMessageLen : Nat := 1024

def msgNewOrderSingle : UInt8 := ascii 'D'

def msgOrderCancelRequest : UInt8 := ascii 'F'

/-- The outcomes other than `None`. -/
inductive FixError where
  | malformed
  | unsupportedBeginString
  | unknownMsgType
  | missingField
  | invalidField
  | bodyLengthMismatch
  | checksumMismatch
  | invalidEnumValue
  | outOfRange
  deriving DecidableEq, Repr

def tagBeginString : Nat := 8
def tagBodyLength : Nat := 9
def tagCheckSum : Nat := 10
def tagClOrdID : Nat := 11
def tagMsgSeqNum : Nat := 34
def tagMsgType : Nat := 35
def tagOrderQty : Nat := 38
def tagOrdType : Nat := 40
def tagOrigClOrdID : Nat := 41
def tagPrice : Nat := 44
def tagSide : Nat := 54
def tagSymbol : Nat := 55
def tagTimeInForce : Nat := 59

def maxFields : Nat := 32

/-- A field of the table, with the byte offset at which it starts in the message. -/
structure Field where
  tag : Nat := 0
  value : List UInt8 := []
  start : Nat := 0
  deriving DecidableEq, Repr

/-- The whole text has to be read. -/
def parseInt (range : Range) (text : List UInt8) : Option Int :=
  match fromChars range text with
  | .ok (value, []) => some value
  | _ => none

def findField (fields : List Field) (tag : Nat) : Option Field :=
  fields.find? fun field => field.tag == tag

/-- The loop of `tokenize` at a position: two searches from there, for the end of the field and
for its equals sign. -/
def tokenizeFrom (msg : List UInt8) (pos : Nat) (out : List Field) :
    Except FixError (List Field) :=
  if _ : pos < msg.length then
    match _ : findFrom msg soh pos with
    | none => .error .malformed
    | some stop =>
      match findFrom msg equals pos with
      | none => .error .malformed
      | some eq =>
        if eq ≥ stop then .error .malformed
        else
          match parseInt (unsigned 32) (slice msg pos (eq - pos)) with
          | none => .error .malformed
          | some tag =>
            if out.length ≥ maxFields then .error .malformed
            else if (findField out tag.toNat).isSome then .error .malformed
            else
              tokenizeFrom msg (stop + 1)
                (out ++ [⟨tag.toNat, slice msg (eq + 1) (stop - (eq + 1)), pos⟩])
  else .ok out
termination_by msg.length - pos
decreasing_by
  have forward : pos ≤ stop := le_findFrom ‹_›
  omega

def tokenize (msg : List UInt8) : Except FixError (List Field) := tokenizeFrom msg 0 []

/-- A slot of the table; those not filled are zero. -/
def fieldAt (fields : List Field) (i : Nat) : Field := fields.getD i {}

def checkEnvelopeShape (fields : List Field) : Except FixError Unit :=
  if fields.length < 3 then .error .malformed
  else if (fieldAt fields 0).tag = tagBeginString ∧ (fieldAt fields 1).tag = tagBodyLength ∧
      (fieldAt fields 2).tag = tagMsgType ∧
      (fieldAt fields (fields.length - 1)).tag = tagCheckSum then
    if (fieldAt fields 0).value = beginString then .ok () else .error .unsupportedBeginString
  else .error .malformed

/-- The difference of two `size_t`. -/
def sizeSub (a b : Nat) : Nat := (a + 2 ^ 64 - b) % 2 ^ 64

/-- The sum of the bytes in an `unsigned`. -/
def byteSum (bytes : List UInt8) : UInt32 :=
  bytes.foldl (fun sum byte => sum + byte.toUInt32) 0

def verifyLengthAndChecksum (msg : List UInt8) (fields : List Field) : Except FixError Unit :=
  let csum := fieldAt fields (fields.length - 1)
  match parseInt (unsigned 64) (fieldAt fields 1).value with
  | none => .error .invalidField
  | some bodyLen =>
    if bodyLen.toNat ≠ sizeSub csum.start (fieldAt fields 2).start then .error .bodyLengthMismatch
    else if csum.value.length ≠ 3 then .error .invalidField
    else
      match parseInt (unsigned 32) csum.value with
      | none => .error .invalidField
      | some declared =>
        if (byteSum (msg.take csum.start) &&& 0xFF).toNat = declared.toNat then .ok ()
        else .error .checksumMismatch

/-- The checks of the envelope; the answer is the field table. -/
def parseEnvelope (msg : List UInt8) : Except FixError (List Field) :=
  if msg.isEmpty ∨ msg.length > maxMessageLen then .error .malformed
  else do
    let fields ← tokenize msg
    checkEnvelopeShape fields
    verifyLengthAndChecksum msg fields
    .ok fields

section Decode

def requireInt (fields : List Field) (tag : Nat) (range : Range) : Except FixError Int :=
  match findField fields tag with
  | none => .error .missingField
  | some field =>
    if field.value.isEmpty then .error .invalidField
    else
      match fromChars range field.value with
      | .error .resultOutOfRange => .error .outOfRange
      | .error .invalidArgument => .error .invalidField
      | .ok (value, rest) => if rest.isEmpty then .ok value else .error .invalidField

/-- A required unsigned field; the value fits its type. -/
def requireNat (fields : List Field) (tag width : Nat) : Except FixError Nat := do
  let value ← requireInt fields tag (unsigned width)
  .ok value.toNat

def requireCode (fields : List Field) (tag : Nat) : Except FixError UInt8 :=
  match findField fields tag with
  | none => .error .missingField
  | some field =>
    match field.value with
    | [code] => .ok code
    | _ => .error .invalidEnumValue

def expectMsgType (fields : List Field) (expected : UInt8) : Except FixError Unit :=
  match findField fields tagMsgType with
  | none => .error .unknownMsgType
  | some type =>
    match type.value with
    | [code] => if code = expected then .ok () else .error .unknownMsgType
    | _ => .error .unknownMsgType

/-- A coded field, by its table. -/
def coded {Enum : Type} (fields : List Field) (tag : Nat) (table : List (UInt8 × Enum)) :
    Except FixError Enum := do
  let code ← requireCode fields tag
  match table.find? fun entry => entry.1 == code with
  | some entry => .ok entry.2
  | none => .error .invalidEnumValue

/-- The shared skeleton of the typed decoders; `fill` is the chain of a `FieldReader`, which stops
at its first error. -/
def decodeTyped {T : Type} (msg : List UInt8) (expected : UInt8)
    (fill : List Field → Except FixError T) : Except FixError T := do
  let fields ← parseEnvelope msg
  expectMsgType fields expected
  fill fields

def sides : List (UInt8 × Side) := [(ascii '1', .buy), (ascii '2', .sell)]

def types : List (UInt8 × OrderType) := [(ascii '1', .market), (ascii '2', .limit)]

def tifs : List (UInt8 × TimeInForce) := [(ascii '1', .gtc), (ascii '3', .ioc)]

/-- The fields of a new order, in the order in which they are asked for. -/
def fillNewOrder (fields : List Field) : Except FixError NewOrder := do
  let _ ← requireNat fields tagMsgSeqNum 64
  let orderId ← requireNat fields tagClOrdID 64
  let symbol ← requireNat fields tagSymbol 32
  let quantity ← requireNat fields tagOrderQty 32
  let price ← requireInt fields tagPrice (signed 64)
  let side ← coded fields tagSide sides
  let type ← coded fields tagOrdType types
  let tif ← coded fields tagTimeInForce tifs
  .ok ⟨UInt64.ofNat orderId, UInt32.ofNat symbol, Int64.ofInt price, UInt32.ofNat quantity, side,
    type, tif⟩

def decodeNewOrder (msg : List UInt8) : Except FixError NewOrder :=
  decodeTyped msg msgNewOrderSingle fillNewOrder

def fillCancelOrder (fields : List Field) : Except FixError CancelOrder := do
  let _ ← requireNat fields tagMsgSeqNum 64
  let orderId ← requireNat fields tagOrigClOrdID 64
  let _ ← requireNat fields tagClOrdID 64
  let symbol ← requireNat fields tagSymbol 32
  .ok ⟨UInt64.ofNat orderId, UInt32.ofNat symbol⟩

def decodeCancelOrder (msg : List UInt8) : Except FixError CancelOrder :=
  decodeTyped msg msgOrderCancelRequest fillCancelOrder

def peekMsgType (msg : List UInt8) : Except FixError UInt8 := do
  let fields ← parseEnvelope msg
  match findField fields tagMsgType with
  | none => .error .unknownMsgType
  | some type =>
    match type.value with
    | [code] => .ok code
    | _ => .error .unknownMsgType

def peekSeq (msg : List UInt8) : Except FixError SeqNo := do
  let fields ← parseEnvelope msg
  requireNat fields tagMsgSeqNum 64

end Decode

section Encode

def appendField (dst : List UInt8) (tag : Nat) (value : List UInt8) : List UInt8 :=
  dst ++ print tag ++ [equals] ++ value ++ [soh]

/-- The body in the envelope, with its length in front and the checksum behind. -/
def frame (body : List UInt8) : List UInt8 :=
  let head := [ascii '8', equals] ++ beginString ++ [soh] ++ [ascii '9', equals] ++
    print body.length ++ [soh] ++ body
  let cs := (byteSum head % 256).toNat
  head ++ [ascii '1', ascii '0', equals] ++
    [digit (cs / 100 % 10), digit (cs / 10 % 10), digit (cs % 10)] ++ [soh]

def encodeNewOrder (msg : NewOrder) (seq : SeqNo) : List UInt8 :=
  let body := appendField [] tagMsgType [msgNewOrderSingle]
  let body := appendField body tagMsgSeqNum (print seq)
  let body := appendField body tagClOrdID (print msg.orderId.toNat)
  let body := appendField body tagSymbol (print msg.symbol.toNat)
  let body := appendField body tagSide [if msg.side = .buy then ascii '1' else ascii '2']
  let body := appendField body tagOrderQty (print msg.quantity.toNat)
  let body := appendField body tagOrdType [if msg.type = .market then ascii '1' else ascii '2']
  let body := appendField body tagPrice (printInt msg.price.toInt)
  let body := appendField body tagTimeInForce [if msg.tif = .gtc then ascii '1' else ascii '3']
  frame body

def encodeCancelOrder (msg : CancelOrder) (seq : SeqNo) : List UInt8 :=
  let body := appendField [] tagMsgType [msgOrderCancelRequest]
  let body := appendField body tagMsgSeqNum (print seq)
  let body := appendField body tagOrigClOrdID (print msg.orderId.toNat)
  let body := appendField body tagClOrdID (print msg.orderId.toNat)
  let body := appendField body tagSymbol (print msg.symbol.toNat)
  frame body

end Encode

end Qsl.Protocol.Fix
