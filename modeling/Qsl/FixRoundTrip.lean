import Qsl.FixGrammar
import Qsl.WireFormat

/- What the FIX encoders write, the FIX decoders read: the same orders as the binary codec. -/
namespace Qsl.Protocol.Fix

open List
open Decimal DelimitedText

section Values

theorem soh_not_mem_print (n : Nat) : soh ∉ print n := by
  intro mem
  have digit := (numeral_print n).2.1 soh mem
  cases digit

theorem soh_not_mem_printInt (i : Int) : soh ∉ printInt i := by
  unfold printInt
  split
  · rw [mem_cons, not_or]
    exact ⟨by decide, soh_not_mem_print _⟩
  · exact soh_not_mem_print _

/-- The three digits of the checksum. -/
theorem numeral_three {n : Nat} (small : n < 1000) :
    Numeral [digit (n / 100 % 10), digit (n / 10 % 10), digit (n % 10)] n := by
  have below : ∀ k, k % 10 < 10 := fun k => Nat.mod_lt k (by decide)
  refine ⟨by simp, ?_, ?_⟩
  · intro byte mem
    simp only [mem_cons, not_mem_nil, or_false] at mem
    rcases mem with rfl | rfl | rfl
    · exact isDigit_digit (below _)
    · exact isDigit_digit (below _)
    · exact isDigit_digit (below _)
  · simp only [number, foldl_cons, foldl_nil, digitValue_digit (below _)]
    omega

end Values

section Write

/-- A field as `append_field` writes it. -/
def entry (tag : Nat) (value : List UInt8) (fits : tag < 2 ^ 32) (clean : soh ∉ value) : Entry where
  tagText := print tag
  value := value
  numeral := by
    have numeral := numeral_print tag
    rwa [numeral.2.2]
  fits := by rwa [(numeral_print tag).2.2]
  clean := clean

@[simp] theorem entry_tag (tag : Nat) (value : List UInt8) (fits : tag < 2 ^ 32)
    (clean : soh ∉ value) : (entry tag value fits clean).tag = tag :=
  (numeral_print tag).2.2

@[simp] theorem entry_value (tag : Nat) (value : List UInt8) (fits : tag < 2 ^ 32)
    (clean : soh ∉ value) : (entry tag value fits clean).value = value := rfl

theorem print_beginString : print tagBeginString = [ascii '8'] := by decide

theorem print_bodyLength : print tagBodyLength = [ascii '9'] := by decide

theorem print_checkSum : print tagCheckSum = [ascii '1', ascii '0'] := by decide

/-- The first two fields of the envelope of a body of given length. -/
def opening (length : Nat) : List Entry :=
  [entry tagBeginString beginString (by decide) (by decide),
    entry tagBodyLength (print length) (by decide) (soh_not_mem_print length)]

theorem opening_text (length : Nat) :
    text (opening length) = [ascii '8', equals] ++ beginString ++ [soh] ++ [ascii '9', equals] ++
      print length ++ [soh] := by
  simp only [text, opening, join_cons, join_nil, Entry.core, entry, print_beginString,
    print_bodyLength, append_assoc, cons_append, nil_append]

section Seal

variable (msgType : Entry) (others : List Entry)

/-- The checksum of the text so far. -/
def closing : Nat :=
  ((text (opening (text (msgType :: others)).length ++ msgType :: others)).map UInt8.toNat).sum % 256

def closingDigits (n : Nat) : List UInt8 :=
  [digit (n / 100 % 10), digit (n / 10 % 10), digit (n % 10)]

theorem numeral_closing :
    Numeral (closingDigits (closing msgType others)) (closing msgType others) := by
  have small : closing msgType others < 256 := Nat.mod_lt _ (by decide)
  exact numeral_three (by omega)

theorem soh_not_mem_closing : soh ∉ closingDigits (closing msgType others) := by
  intro mem
  have digit := (numeral_closing msgType others).2.1 soh mem
  cases digit

/-- The envelope that `frame` makes of the fields of a body. -/
def envelope (few : others.length ≤ 28) (typed : msgType.tag = tagMsgType)
    (distinct : (tagBeginString :: tagBodyLength :: msgType.tag ::
      (others.map Entry.tag ++ [tagCheckSum])).Nodup) : Envelope where
  begin := entry tagBeginString beginString (by decide) (by decide)
  bodyLength := entry tagBodyLength (print (text (msgType :: others)).length) (by decide)
    (soh_not_mem_print _)
  msgType := msgType
  others := others
  checkSum := entry tagCheckSum (closingDigits (closing msgType others)) (by decide)
    (soh_not_mem_closing msgType others)
  few := few
  distinct := by simpa using distinct
  begin_tag := entry_tag _ _ _ _
  bodyLength_tag := entry_tag _ _ _ _
  msgType_tag := typed
  checkSum_tag := entry_tag _ _ _ _
  supported := rfl
  length_eq := numeral_print _
  three := rfl
  sum_eq := numeral_closing msgType others

theorem frame_text (few : others.length ≤ 28) (typed : msgType.tag = tagMsgType)
    (distinct : (tagBeginString :: tagBodyLength :: msgType.tag ::
      (others.map Entry.tag ++ [tagCheckSum])).Nodup) :
    frame (text (msgType :: others)) = text (envelope msgType others few typed distinct).entries := by
  have head : [ascii '8', equals] ++ beginString ++ [soh] ++ [ascii '9', equals] ++
      print (text (msgType :: others)).length ++ [soh] ++ text (msgType :: others) =
        text (opening (text (msgType :: others)).length ++ msgType :: others) := by
    rw [← opening_text]
    exact (join_append _ _).symm
  have parts : text (envelope msgType others few typed distinct).entries =
      text (opening (text (msgType :: others)).length ++ msgType :: others) ++
        ((envelope msgType others few typed distinct).checkSum.core ++ [soh]) :=
    join_snoc (opening (text (msgType :: others)).length ++ msgType :: others) _
  rw [parts, frame]
  simp only [head, (byteSum_low _).2]
  simp only [envelope, Entry.core, entry, print_checkSum, closingDigits, closing, append_assoc,
    cons_append, nil_append]

end Seal

end Write

section Read

/-- The value of a field of the table, by its tag. -/
def lookup (fields : List Field) (tag : Nat) : Option (List UInt8) :=
  (findField fields tag).map Field.value

theorem lookup_locate (start : Nat) (entries : List Entry) (tag : Nat) :
    lookup (locate start entries) tag =
      (entries.find? fun entry => entry.tag == tag).map Entry.value := by
  induction entries generalizing start with
  | nil => rfl
  | cons entry entries ih =>
    have ih := ih (start + (entry.core.length + 1))
    unfold lookup findField at ih ⊢
    have same : (entry.field start).tag = entry.tag := rfl
    rw [locate, find?_cons, find?_cons, same]
    cases entry.tag == tag with
    | true => rfl
    | false => exact ih

variable {fields : List Field} {tag : Nat}

theorem requireInt_value {range : Range} {value : List UInt8} {i : Int}
    (found : lookup fields tag = some value) (filled : value ≠ [])
    (read : fromChars range value = .ok (i, [])) : requireInt fields tag range = .ok i := by
  obtain ⟨field, here, rfl⟩ := Option.map_eq_some_iff.mp found
  rw [requireInt, here]
  simp [filled, read]

theorem requireNat_print {width n : Nat}
    (found : lookup fields tag = some (print n)) (fits : n < 2 ^ width) :
    requireNat fields tag width = .ok n := by
  have numeral := numeral_print n
  have read := fromChars_unsigned.mpr ⟨n, numeral, fits, rfl⟩
  rw [requireNat, requireInt_value found numeral.1 read]
  rfl

theorem requireInt_printInt {range : Range} {i : Int}
    (found : lookup fields tag = some (printInt i))
    (within : range.low ≤ i ∧ i ≤ range.high) : requireInt fields tag range = .ok i := by
  refine requireInt_value found ?_ (fromChars_printInt within)
  unfold printInt
  split
  · exact cons_ne_nil _ _
  · exact (numeral_print _).1

theorem requireCode_value {code : UInt8}
    (found : lookup fields tag = some [code]) :
    requireCode fields tag = .ok code := by
  obtain ⟨field, here, value⟩ := Option.map_eq_some_iff.mp found
  rw [requireCode, here]
  simp only [value]

theorem coded_value {Enum : Type} {table : List (UInt8 × Enum)} {code : UInt8} {value : Enum}
    (found : lookup fields tag = some [code])
    (known : (table.find? fun entry => entry.1 == code) = some (code, value)) :
    coded fields tag table = .ok value := by
  rw [coded, requireCode_value found]
  simp only [bind, Except.bind, known]

theorem expectMsgType_value {code : UInt8}
    (found : lookup fields tagMsgType = some [code]) (expected : UInt8) :
    expectMsgType fields expected =
      if code = expected then .ok () else .error .unknownMsgType := by
  obtain ⟨field, here, value⟩ := Option.map_eq_some_iff.mp found
  rw [expectMsgType, here]
  simp only [value]

end Read

section Short

theorem entry_core_le {tag : Nat} {value : List UInt8} (fits : tag < 2 ^ 32) (clean : soh ∉ value)
    (small : tag < 100) (short : value.length ≤ 20) :
    (entry tag value fits clean).core.length ≤ 23 := by
  have tagged : (print tag).length ≤ 2 := print_length (by decide) small
  have length : (entry tag value fits clean).core.length =
      (print tag).length + (value.length + 1) := by
    rw [Entry.core, length_append, length_cons]
    rfl
  omega

theorem text_length_le {entries : List Entry} (each : ∀ entry ∈ entries, entry.core.length ≤ 23) :
    (text entries).length ≤ 24 * entries.length := by
  induction entries with
  | nil => exact Nat.le_refl 0
  | cons entry entries ih =>
    have here := each entry mem_cons_self
    have later := ih fun other mem => each other (mem_cons_of_mem _ mem)
    rw [text_cons_length, length_cons]
    omega

theorem text_moderate {entries : List Entry} (each : ∀ entry ∈ entries, entry.core.length ≤ 23)
    (few : entries.length ≤ 41) : (text entries).length < 1000 := by
  have length := text_length_le each
  omega

/-- A body of moderate length leaves room for the envelope. -/
theorem envelope_short {msgType : Entry} {others : List Entry} {few : others.length ≤ 28}
    {typed : msgType.tag = tagMsgType} {distinct : (tagBeginString :: tagBodyLength ::
      msgType.tag :: (others.map Entry.tag ++ [tagCheckSum])).Nodup}
    (moderate : (text (msgType :: others)).length < 1000) :
    (text (envelope msgType others few typed distinct).entries).length ≤ maxMessageLen := by
  rw [← frame_text, frame]
  have digits : (print (text (msgType :: others)).length).length ≤ 3 :=
    print_length (by decide) moderate
  simp only [length_append, length_cons, length_nil, beginString, length_map,
    maxMessageLen]
  omega

/-- A tag that is not of the envelope is sought in the body. -/
theorem Envelope.find?_entries (envelope : Envelope) {tag : Nat} (not8 : tag ≠ tagBeginString)
    (not9 : tag ≠ tagBodyLength) (not10 : tag ≠ tagCheckSum) :
    (envelope.entries.find? fun entry => entry.tag == tag) =
      (envelope.msgType :: envelope.others).find? fun entry => entry.tag == tag := by
  have skip : ∀ (entry : Entry) (entries : List Entry), entry.tag ≠ tag →
      ((entry :: entries).find? fun entry => entry.tag == tag) =
        entries.find? fun entry => entry.tag == tag := by
    intro entry entries other
    exact find?_cons_of_neg (by simpa using other)
  have parts : envelope.entries = envelope.begin :: envelope.bodyLength ::
      ((envelope.msgType :: envelope.others) ++ [envelope.checkSum]) := rfl
  rw [parts, skip envelope.begin _ (by rw [envelope.begin_tag]; exact not8.symm),
    skip envelope.bodyLength _ (by rw [envelope.bodyLength_tag]; exact not9.symm),
    find?_append, skip envelope.checkSum [] (by rw [envelope.checkSum_tag]; exact not10.symm),
    find?_nil, Option.or_none]

/-- A body in its envelope is accepted, and its fields are found in the table. -/
theorem frame_accepted {msgType : Entry} {others : List Entry} (few : others.length ≤ 28)
    (typed : msgType.tag = tagMsgType) (distinct : (tagBeginString :: tagBodyLength ::
      msgType.tag :: (others.map Entry.tag ++ [tagCheckSum])).Nodup)
    (moderate : (text (msgType :: others)).length < 1000) :
    (frame (text (msgType :: others))).length ≤ maxMessageLen ∧
      ∃ fields, parseEnvelope (frame (text (msgType :: others))) = .ok fields ∧
        ∀ {tag : Nat} {value : List UInt8}, tag ≠ tagBeginString → tag ≠ tagBodyLength →
          tag ≠ tagCheckSum →
          ((msgType :: others).find? fun entry => entry.tag == tag).map Entry.value = some value →
          lookup fields tag = some value := by
  have short := @envelope_short msgType others few typed distinct moderate
  have accepted := (envelope msgType others few typed distinct).accepted short
  rw [← frame_text] at short accepted
  refine ⟨short, _, accepted, ?_⟩
  intro tag value not8 not9 not10 listed
  rw [lookup_locate, Envelope.find?_entries _ not8 not9 not10]
  exact listed

end Short

section Orders

theorem soh_not_mem_choice {p : Prop} [Decidable p] {a b : UInt8} (first : a ≠ soh)
    (second : b ≠ soh) : soh ∉ [if p then a else b] := by
  rw [mem_singleton]
  split
  · exact first.symm
  · exact second.symm

def newOrderType : Entry := entry tagMsgType [msgNewOrderSingle] (by decide) (by decide)

/-- The fields of a new order behind the first. -/
def newOrderEntries (msg : NewOrder) (seq : SeqNo) : List Entry :=
  [entry tagMsgSeqNum (print seq) (by decide) (soh_not_mem_print _),
    entry tagClOrdID (print msg.orderId.toNat) (by decide) (soh_not_mem_print _),
    entry tagSymbol (print msg.symbol.toNat) (by decide) (soh_not_mem_print _),
    entry tagSide [if msg.side = .buy then ascii '1' else ascii '2'] (by decide)
      (soh_not_mem_choice (by decide) (by decide)),
    entry tagOrderQty (print msg.quantity.toNat) (by decide) (soh_not_mem_print _),
    entry tagOrdType [if msg.type = .market then ascii '1' else ascii '2'] (by decide)
      (soh_not_mem_choice (by decide) (by decide)),
    entry tagPrice (printInt msg.price.toInt) (by decide) (soh_not_mem_printInt _),
    entry tagTimeInForce [if msg.tif = .gtc then ascii '1' else ascii '3'] (by decide)
      (soh_not_mem_choice (by decide) (by decide))]

def cancelOrderType : Entry := entry tagMsgType [msgOrderCancelRequest] (by decide) (by decide)

def cancelOrderEntries (msg : CancelOrder) (seq : SeqNo) : List Entry :=
  [entry tagMsgSeqNum (print seq) (by decide) (soh_not_mem_print _),
    entry tagOrigClOrdID (print msg.orderId.toNat) (by decide) (soh_not_mem_print _),
    entry tagClOrdID (print msg.orderId.toNat) (by decide) (soh_not_mem_print _),
    entry tagSymbol (print msg.symbol.toNat) (by decide) (soh_not_mem_print _)]

theorem encodeNewOrder_eq (msg : NewOrder) (seq : SeqNo) :
    encodeNewOrder msg seq =
      frame (text (newOrderType :: newOrderEntries msg seq)) := by
  simp only [encodeNewOrder, appendField, text, newOrderType, newOrderEntries, join_cons, join_nil,
    Entry.core, entry, append_assoc, cons_append, nil_append]

theorem encodeCancelOrder_eq (msg : CancelOrder) (seq : SeqNo) :
    encodeCancelOrder msg seq =
      frame (text (cancelOrderType :: cancelOrderEntries msg seq)) := by
  simp only [encodeCancelOrder, appendField, text, cancelOrderType, cancelOrderEntries, join_cons,
    join_nil, Entry.core, entry, append_assoc, cons_append, nil_append]

theorem print_length_UInt64 {n : Nat} (fits : n < 2 ^ 64) : (print n).length ≤ 20 :=
  print_length (by decide) (by omega)

theorem print_length_UInt32 (n : UInt32) : (print n.toNat).length ≤ 10 :=
  print_length (by decide) (by have fits := n.toNat_lt; omega)

theorem printInt_length (i : Int64) : (printInt i.toInt).length ≤ 20 := by
  have low := i.le_toInt
  have high := i.toInt_lt
  have digits : (print i.toInt.natAbs).length ≤ 19 := print_length (by decide) (by omega)
  unfold printInt
  split
  · rw [length_cons]
    omega
  · omega

section NewOrder

variable (msg : NewOrder) {seq : SeqNo}

theorem newOrder_moderate (numbered : seq < 2 ^ 64) :
    (text (newOrderType :: newOrderEntries msg seq)).length < 1000 := by
  have each : ∀ entry ∈ newOrderType :: newOrderEntries msg seq,
      entry.core.length ≤ 23 := by
    simp only [newOrderEntries, forall_mem_cons]
    exact ⟨entry_core_le _ _ (by decide) (by decide),
      entry_core_le _ _ (by decide) (print_length_UInt64 numbered),
      entry_core_le _ _ (by decide) (print_length_UInt64 msg.orderId.toNat_lt),
      entry_core_le _ _ (by decide) (Nat.le_trans (print_length_UInt32 msg.symbol) (by decide)),
      entry_core_le _ _ (by decide) (Nat.le_of_lt_succ (by simp)),
      entry_core_le _ _ (by decide) (Nat.le_trans (print_length_UInt32 msg.quantity) (by decide)),
      entry_core_le _ _ (by decide) (Nat.le_of_lt_succ (by simp)),
      entry_core_le _ _ (by decide) (printInt_length msg.price),
      entry_core_le _ _ (by decide) (Nat.le_of_lt_succ (by simp)),
      fun entry mem => by cases mem⟩
  exact text_moderate each (show 9 ≤ 41 by decide)

/-- What the table of a new order has. -/
structure NewOrderTable (fields : List Field) (msg : NewOrder) (seq : SeqNo) : Prop where
  msgType : lookup fields tagMsgType = some [msgNewOrderSingle]
  msgSeqNum : lookup fields tagMsgSeqNum = some (print seq)
  clOrdID : lookup fields tagClOrdID = some (print msg.orderId.toNat)
  symbol : lookup fields tagSymbol = some (print msg.symbol.toNat)
  side : lookup fields tagSide = some [if msg.side = .buy then ascii '1' else ascii '2']
  orderQty : lookup fields tagOrderQty = some (print msg.quantity.toNat)
  ordType : lookup fields tagOrdType = some [if msg.type = .market then ascii '1' else ascii '2']
  price : lookup fields tagPrice = some (printInt msg.price.toInt)
  timeInForce : lookup fields tagTimeInForce =
    some [if msg.tif = .gtc then ascii '1' else ascii '3']

theorem encodeNewOrder_accepted (numbered : seq < 2 ^ 64) :
    (encodeNewOrder msg seq).length ≤ maxMessageLen ∧
      ∃ fields, parseEnvelope (encodeNewOrder msg seq) = .ok fields ∧
        NewOrderTable fields msg seq := by
  have distinct : (tagBeginString :: tagBodyLength :: newOrderType.tag ::
      ((newOrderEntries msg seq).map Entry.tag ++ [tagCheckSum])).Nodup := by
    simp only [newOrderType, newOrderEntries, map_cons, map_nil, entry_tag]
    decide
  obtain ⟨short, fields, accepted, found⟩ := @frame_accepted newOrderType _
    (by simp [newOrderEntries]) (entry_tag _ _ _ _) distinct (newOrder_moderate msg numbered)
  rw [encodeNewOrder_eq]
  refine ⟨short, fields, accepted, ?_⟩
  constructor <;> refine found (by decide) (by decide) (by decide) ?_ <;>
    simp [newOrderType, newOrderEntries, tagMsgType, tagMsgSeqNum, tagClOrdID, tagSymbol, tagSide,
      tagOrderQty, tagOrdType, tagPrice, tagTimeInForce]

namespace NewOrderTable

variable {msg} {fields : List Field}

/-- The decoder finds every field as it was written. -/
theorem fill (table : NewOrderTable fields msg seq) (numbered : seq < 2 ^ 64) :
    fillNewOrder fields = .ok msg := by
  have side : coded fields tagSide sides = .ok msg.side :=
    coded_value table.side (by cases msg.side <;> rfl)
  have type : coded fields tagOrdType types = .ok msg.type :=
    coded_value table.ordType (by cases msg.type <;> rfl)
  have tif : coded fields tagTimeInForce tifs = .ok msg.tif :=
    coded_value table.timeInForce (by cases msg.tif <;> rfl)
  have price : requireInt fields tagPrice (signed 64) = .ok msg.price.toInt :=
    requireInt_printInt table.price ⟨msg.price.le_toInt, Int.le_sub_one_of_lt msg.price.toInt_lt⟩
  rw [fillNewOrder, requireNat_print table.msgSeqNum numbered,
    requireNat_print table.clOrdID msg.orderId.toNat_lt,
    requireNat_print table.symbol msg.symbol.toNat_lt,
    requireNat_print table.orderQty msg.quantity.toNat_lt, price, side, type, tif]
  simp only [bind, Except.bind, UInt64.ofNat_toNat, UInt32.ofNat_toNat, Int64.ofInt_toInt]

end NewOrderTable

end NewOrder

section CancelOrder

variable (msg : CancelOrder) {seq : SeqNo}

theorem cancelOrder_moderate (numbered : seq < 2 ^ 64) :
    (text (cancelOrderType :: cancelOrderEntries msg seq)).length < 1000 := by
  have each : ∀ entry ∈ cancelOrderType :: cancelOrderEntries msg seq, entry.core.length ≤ 23 := by
    simp only [cancelOrderEntries, forall_mem_cons]
    exact ⟨entry_core_le _ _ (by decide) (by decide),
      entry_core_le _ _ (by decide) (print_length_UInt64 numbered),
      entry_core_le _ _ (by decide) (print_length_UInt64 msg.orderId.toNat_lt),
      entry_core_le _ _ (by decide) (print_length_UInt64 msg.orderId.toNat_lt),
      entry_core_le _ _ (by decide) (Nat.le_trans (print_length_UInt32 msg.symbol) (by decide)),
      fun entry mem => by cases mem⟩
  exact text_moderate each (show 5 ≤ 41 by decide)

/-- What the table of a cancel request has. -/
structure CancelOrderTable (fields : List Field) (msg : CancelOrder) (seq : SeqNo) : Prop where
  msgType : lookup fields tagMsgType = some [msgOrderCancelRequest]
  msgSeqNum : lookup fields tagMsgSeqNum = some (print seq)
  origClOrdID : lookup fields tagOrigClOrdID = some (print msg.orderId.toNat)
  clOrdID : lookup fields tagClOrdID = some (print msg.orderId.toNat)
  symbol : lookup fields tagSymbol = some (print msg.symbol.toNat)

theorem encodeCancelOrder_accepted (numbered : seq < 2 ^ 64) :
    (encodeCancelOrder msg seq).length ≤ maxMessageLen ∧
      ∃ fields, parseEnvelope (encodeCancelOrder msg seq) = .ok fields ∧
        CancelOrderTable fields msg seq := by
  have distinct : (tagBeginString :: tagBodyLength :: cancelOrderType.tag ::
      ((cancelOrderEntries msg seq).map Entry.tag ++ [tagCheckSum])).Nodup := by
    simp only [cancelOrderType, cancelOrderEntries, map_cons, map_nil, entry_tag]
    decide
  obtain ⟨short, fields, accepted, found⟩ := @frame_accepted cancelOrderType _
    (by simp [cancelOrderEntries]) (entry_tag _ _ _ _) distinct (cancelOrder_moderate msg numbered)
  rw [encodeCancelOrder_eq]
  refine ⟨short, fields, accepted, ?_⟩
  constructor <;> refine found (by decide) (by decide) (by decide) ?_ <;>
    simp [cancelOrderType, cancelOrderEntries, tagMsgType, tagMsgSeqNum, tagOrigClOrdID, tagClOrdID,
      tagSymbol]

theorem CancelOrderTable.fill {msg} {fields : List Field} (table : CancelOrderTable fields msg seq)
    (numbered : seq < 2 ^ 64) : fillCancelOrder fields = .ok msg := by
  rw [fillCancelOrder, requireNat_print table.msgSeqNum numbered,
    requireNat_print table.origClOrdID msg.orderId.toNat_lt,
    requireNat_print table.clOrdID msg.orderId.toNat_lt,
    requireNat_print table.symbol msg.symbol.toNat_lt]
  simp only [bind, Except.bind, UInt64.ofNat_toNat, UInt32.ofNat_toNat]

end CancelOrder

section Accepted

variable {message : List UInt8} {fields : List Field} {code : UInt8}
  (accepted : parseEnvelope message = .ok fields)

include accepted

theorem peekMsgType_accepted (type : lookup fields tagMsgType = some [code]) :
    peekMsgType message = .ok code := by
  obtain ⟨field, here, value⟩ := Option.map_eq_some_iff.mp type
  rw [peekMsgType, accepted]
  simp only [bind, Except.bind, here, value]

theorem peekSeq_accepted {seq : SeqNo} (numbered : seq < 2 ^ 64)
    (found : lookup fields tagMsgSeqNum = some (print seq)) : peekSeq message = .ok seq := by
  rw [peekSeq, accepted]
  exact requireNat_print found numbered

/-- A typed decoder takes messages of its type only. -/
theorem decodeTyped_accepted {T : Type} (type : lookup fields tagMsgType = some [code])
    (expected : UInt8) (fill : List Field → Except FixError T) :
    decodeTyped message expected fill =
      if code = expected then fill fields else .error .unknownMsgType := by
  rw [decodeTyped, accepted]
  simp only [bind, Except.bind, expectMsgType_value type expected]
  split
  · rename_i found
    split at found
    · cases found
    · rename_i other
      cases found
      rw [if_neg other]
  · rename_i found
    split at found
    · rename_i same
      rw [if_pos same]
    · cases found

end Accepted

section Binary

open FieldLayout (map_ok)

theorem binary_newOrder (msg : NewOrder) {seq : SeqNo} (numbered : seq < 2 ^ 64) :
    Protocol.decodeNewOrder (msg.encode seq) = .ok msg := by
  have round := @Message.decode_encode (.newOrder msg) trivial seq numbered []
  rw [append_nil] at round
  obtain ⟨order, read, same⟩ := map_ok round
  cases same
  exact read

theorem binary_cancelOrder (msg : CancelOrder) {seq : SeqNo} (numbered : seq < 2 ^ 64) :
    Protocol.decodeCancelOrder (msg.encode seq) = .ok msg := by
  have round := @Message.decode_encode (.cancelOrder msg) trivial seq numbered []
  rw [append_nil] at round
  obtain ⟨order, read, same⟩ := map_ok round
  cases same
  exact read

end Binary

end Orders

/-- The two wire formats carry the same orders: a FIX message is short enough, shows its type and
its sequence number, and gives the order that the binary frame gives; the other decoder refuses
it. -/
theorem fix_and_binary_agree (seq : UInt64) :
    (∀ msg : NewOrder,
      (encodeNewOrder msg seq.toNat).length ≤ maxMessageLen ∧
      peekMsgType (encodeNewOrder msg seq.toNat) = .ok (ascii 'D') ∧
      peekSeq (encodeNewOrder msg seq.toNat) = .ok seq.toNat ∧
      decodeNewOrder (encodeNewOrder msg seq.toNat) = .ok msg ∧
      decodeCancelOrder (encodeNewOrder msg seq.toNat) = .error .unknownMsgType ∧
      Protocol.decodeNewOrder (msg.encode seq.toNat) = .ok msg) ∧
    ∀ msg : CancelOrder,
      (encodeCancelOrder msg seq.toNat).length ≤ maxMessageLen ∧
      peekMsgType (encodeCancelOrder msg seq.toNat) = .ok (ascii 'F') ∧
      peekSeq (encodeCancelOrder msg seq.toNat) = .ok seq.toNat ∧
      decodeCancelOrder (encodeCancelOrder msg seq.toNat) = .ok msg ∧
      decodeNewOrder (encodeCancelOrder msg seq.toNat) = .error .unknownMsgType ∧
      Protocol.decodeCancelOrder (msg.encode seq.toNat) = .ok msg := by
  have numbered := seq.toNat_lt
  constructor
  · intro msg
    obtain ⟨short, fields, accepted, table⟩ := encodeNewOrder_accepted msg numbered
    have decoded := decodeTyped_accepted accepted table.msgType msgNewOrderSingle fillNewOrder
    rw [if_pos rfl, table.fill numbered] at decoded
    have refused := decodeTyped_accepted accepted table.msgType msgOrderCancelRequest
      fillCancelOrder
    rw [if_neg (by decide)] at refused
    exact ⟨short, peekMsgType_accepted accepted table.msgType,
      peekSeq_accepted accepted numbered table.msgSeqNum, decoded, refused,
      binary_newOrder msg numbered⟩
  · intro msg
    obtain ⟨short, fields, accepted, table⟩ := encodeCancelOrder_accepted msg numbered
    have decoded := decodeTyped_accepted accepted table.msgType msgOrderCancelRequest
      fillCancelOrder
    rw [if_pos rfl, table.fill numbered] at decoded
    have refused := decodeTyped_accepted accepted table.msgType msgNewOrderSingle fillNewOrder
    rw [if_neg (by decide)] at refused
    exact ⟨short, peekMsgType_accepted accepted table.msgType,
      peekSeq_accepted accepted numbered table.msgSeqNum, decoded, refused,
      binary_cancelOrder msg numbered⟩

end Qsl.Protocol.Fix
