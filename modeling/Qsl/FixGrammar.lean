import Qsl.Fix

/- The grammar of the FIX envelope, and that `parse_envelope` accepts exactly its texts. -/
namespace Qsl.Protocol.Fix

open List
open Decimal DelimitedText
open FieldLayout (slice bind_ok)

/-- A tag=value field as it is written: a numeral that fits an `unsigned`, and a value without
the separator. -/
structure Entry where
  tagText : List UInt8
  value : List UInt8
  numeral : Numeral tagText (number tagText)
  fits : number tagText < 2 ^ 32
  clean : soh ∉ value

namespace Entry

def tag (entry : Entry) : Nat := number entry.tagText

/-- The bytes of the field, without the separator behind them. -/
def core (entry : Entry) : List UInt8 := entry.tagText ++ equals :: entry.value

/-- The field in the table. -/
def field (entry : Entry) (start : Nat) : Field := ⟨entry.tag, entry.value, start⟩

theorem not_mem_tagText (entry : Entry) {byte : UInt8} (other : isDigit byte = false) :
    byte ∉ entry.tagText := by
  intro mem
  have digit := entry.numeral.2.1 byte mem
  rw [other] at digit
  cases digit

theorem equals_not_mem (entry : Entry) : equals ∉ entry.tagText :=
  entry.not_mem_tagText (by decide)

theorem soh_not_mem (entry : Entry) : soh ∉ entry.core := by
  rw [core, mem_append, mem_cons, not_or, not_or]
  exact ⟨entry.not_mem_tagText (by decide), by decide, entry.clean⟩

theorem core_injective : Function.Injective core := by
  intro entry other same
  obtain ⟨tag_eq, value_eq⟩ := cut_unique entry.equals_not_mem other.equals_not_mem same
  cases entry
  cases other
  cases tag_eq
  cases value_eq
  rfl

end Entry

/-- The bytes of a list of fields. -/
def text (entries : List Entry) : List UInt8 := join Entry.core soh entries

/-- The table that lists the fields, the first of them at a given offset. -/
def locate (start : Nat) : List Entry → List Field
  | [] => []
  | entry :: entries =>
    entry.field start :: locate (start + (entry.core.length + 1)) entries

/-- A message of the grammar: the fields 8, 9 and 35, at most 28 others, and the field 10. -/
structure Envelope where
  begin : Entry
  bodyLength : Entry
  msgType : Entry
  others : List Entry
  checkSum : Entry
  few : others.length ≤ 28
  distinct : ((begin :: bodyLength :: msgType :: (others ++ [checkSum])).map Entry.tag).Nodup
  begin_tag : begin.tag = tagBeginString
  bodyLength_tag : bodyLength.tag = tagBodyLength
  msgType_tag : msgType.tag = tagMsgType
  checkSum_tag : checkSum.tag = tagCheckSum
  supported : begin.value = beginString
  length_eq : Numeral bodyLength.value (text (msgType :: others)).length
  three : checkSum.value.length = 3
  sum_eq : Numeral checkSum.value
    (((text (begin :: bodyLength :: msgType :: others)).map UInt8.toNat).sum % 256)

namespace Envelope

def entries (envelope : Envelope) : List Entry :=
  envelope.begin :: envelope.bodyLength :: envelope.msgType ::
    (envelope.others ++ [envelope.checkSum])

/-- The fields before the last. -/
def front (envelope : Envelope) : List Entry :=
  envelope.begin :: envelope.bodyLength :: envelope.msgType :: envelope.others

theorem entries_eq (envelope : Envelope) :
    envelope.entries = envelope.front ++ [envelope.checkSum] := rfl

end Envelope

theorem text_cons_length (entry : Entry) (entries : List Entry) :
    (text (entry :: entries)).length = entry.core.length + 1 + (text entries).length := by
  rw [text, text, join_cons, length_append, length_cons]
  omega

section Locate

theorem locate_append (start : Nat) (entries more : List Entry) :
    locate start (entries ++ more) =
      locate start entries ++ locate (start + (text entries).length) more := by
  induction entries generalizing start with
  | nil => rfl
  | cons entry entries ih =>
    rw [cons_append, locate, locate, ih, text_cons_length, Nat.add_assoc start,
      cons_append]

@[simp] theorem locate_length (start : Nat) (entries : List Entry) :
    (locate start entries).length = entries.length := by
  induction entries generalizing start with
  | nil => rfl
  | cons entry entries ih => rw [locate, length_cons, ih, length_cons]

end Locate

section Parse

theorem parseInt_unsigned {width : Nat} {digits : List UInt8} {value : Int} :
    parseInt (unsigned width) digits = some value ↔
      ∃ n : Nat, Numeral digits n ∧ n < 2 ^ width ∧ value = n := by
  rw [← fromChars_unsigned, parseInt]
  split
  · rename_i found read
    rw [read]
    simp
  · rename_i other
    constructor
    · intro none
      cases none
    · intro read
      exact absurd read (other value)

theorem findField_isSome {fields : List Field} {tag : Nat} :
    (findField fields tag).isSome = true ↔ tag ∈ fields.map Field.tag := by
  simp [findField]

theorem slice_front (front first rest : List UInt8) :
    slice (front ++ (first ++ rest)) front.length first.length = first := by
  rw [slice, drop_left, take_left]

end Parse

section Tokenize

/-- One pass of the loop. -/
theorem tokenizeFrom_eq (msg : List UInt8) (pos : Nat) (out : List Field) :
    tokenizeFrom msg pos out =
      if pos < msg.length then
        match findFrom msg soh pos, findFrom msg equals pos with
        | some stop, some eq =>
          if eq ≥ stop then .error .malformed
          else
            match parseInt (unsigned 32) (slice msg pos (eq - pos)) with
            | none => .error .malformed
            | some tag =>
              if out.length ≥ maxFields then .error .malformed
              else if (findField out tag.toNat).isSome then .error .malformed
              else
                tokenizeFrom msg (stop + 1)
                  (out ++ [⟨tag.toNat, slice msg (eq + 1) (stop - (eq + 1)), pos⟩])
        | _, _ => .error .malformed
      else .ok out := by
  rw [tokenizeFrom]
  by_cases inside : pos < msg.length
  · rw [dif_pos inside, if_pos inside]
    split
    · rename_i unended
      rw [unended]
    · rename_i stop ended
      rw [ended]
      cases findFrom msg equals pos with
      | none => rfl
      | some eq => rfl
  · rw [dif_neg inside, if_neg inside]

/-- The loop at a field: the table takes it, if there is room and the tag is new. -/
theorem tokenizeFrom_entry (done : List UInt8) (entry : Entry) (rest : List UInt8)
    (out : List Field) :
    tokenizeFrom (done ++ (entry.core ++ soh :: rest)) done.length out =
      if out.length ≥ maxFields then .error .malformed
      else if (findField out entry.tag).isSome then .error .malformed
      else
        tokenizeFrom (done ++ (entry.core ++ soh :: rest)) (done.length + (entry.core.length + 1))
          (out ++ [entry.field done.length]) := by
  have inside : done.length < (done ++ (entry.core ++ soh :: rest)).length := by
    rw [length_append, length_append, length_cons]
    omega
  have ends : findFrom (done ++ (entry.core ++ soh :: rest)) soh done.length =
      some (done.length + entry.core.length) :=
    findFrom_iff.mpr ⟨entry.core, rest, rfl, entry.soh_not_mem, rfl⟩
  have split : entry.core ++ soh :: rest =
      entry.tagText ++ equals :: (entry.value ++ soh :: rest) := by
    rw [Entry.core, append_assoc, cons_append]
  have equal : findFrom (done ++ (entry.core ++ soh :: rest)) equals done.length =
      some (done.length + entry.tagText.length) :=
    findFrom_iff.mpr ⟨entry.tagText, entry.value ++ soh :: rest, split, entry.equals_not_mem, rfl⟩
  have length : entry.core.length = entry.tagText.length + (entry.value.length + 1) := by
    rw [Entry.core, length_append, length_cons]
  have order : ¬ done.length + entry.tagText.length ≥ done.length + entry.core.length := by omega
  have tag : parseInt (unsigned 32) (slice (done ++ (entry.core ++ soh :: rest)) done.length
      (done.length + entry.tagText.length - done.length)) = some (entry.tag : Int) := by
    rw [Nat.add_sub_cancel_left, split, slice_front]
    exact parseInt_unsigned.mpr ⟨entry.tag, entry.numeral, entry.fits, rfl⟩
  have value : slice (done ++ (entry.core ++ soh :: rest)) (done.length + entry.tagText.length + 1)
      (done.length + entry.core.length - (done.length + entry.tagText.length + 1)) =
        entry.value := by
    have start : done.length + entry.tagText.length + 1 =
        (done ++ (entry.tagText ++ [equals])).length := by
      rw [length_append, length_append, length_singleton, Nat.add_assoc]
    have width : done.length + entry.core.length - (done.length + entry.tagText.length + 1) =
        entry.value.length := by omega
    have parts : done ++ (entry.core ++ soh :: rest) =
        (done ++ (entry.tagText ++ [equals])) ++ (entry.value ++ soh :: rest) := by
      rw [split, append_assoc, append_assoc, singleton_append]
    rw [width, start, parts, slice_front]
  rw [tokenizeFrom_eq, if_pos inside, ends, equal]
  simp only [order, if_false, tag, value, Int.toNat_natCast]
  rfl

/-- The loop anywhere else. -/
theorem tokenizeFrom_stuck {done rest : List UInt8} (some : rest ≠ [])
    (stuck : ∀ (entry : Entry) (after : List UInt8), rest ≠ entry.core ++ soh :: after)
    (out : List Field) : tokenizeFrom (done ++ rest) done.length out = .error .malformed := by
  have inside : done.length < (done ++ rest).length := by
    rw [length_append]
    have positive := length_pos_of_ne_nil some
    omega
  rw [tokenizeFrom_eq, if_pos inside]
  split
  · rename_i stop eq ends equal
    split
    · rfl
    · rename_i order
      split
      · rfl
      · rename_i tag read
        -- The two searches and the tag would make a field.
        obtain ⟨core, after, rfl, absent, rfl⟩ := findFrom_iff.mp ends
        obtain ⟨tagText, rest, same, _, rfl⟩ := findFrom_iff.mp equal
        rw [Nat.add_sub_cancel_left, same, slice_front] at read
        obtain ⟨n, numeral, fits, -⟩ := parseInt_unsigned.mp read
        obtain ⟨-, -, rfl⟩ := id numeral
        rcases append_eq_append_iff.mp same with ⟨cut, rfl, -⟩ | ⟨cut, rfl, tail⟩
        · rw [length_append] at order
          omega
        · cases cut with
          | nil =>
            rw [append_nil] at order
            omega
          | cons first value =>
            cases tail
            have clean : soh ∉ value := fun mem =>
              absent (mem_append_right _ (mem_cons_of_mem _ mem))
            exact absurd rfl (stuck ⟨tagText, value, numeral, fits, clean⟩ after)
  · rfl

/-- The field that stands first in a text is the first field. -/
theorem text_eq_entry {entry : Entry} {after : List UInt8} {entries : List Entry}
    (same : entry.core ++ soh :: after = text entries) :
    ∃ others, entries = entry :: others ∧ after = text others := by
  cases entries with
  | nil => simp [text] at same
  | cons first others =>
    rw [text, join_cons] at same
    obtain ⟨core_eq, after_eq⟩ := cut_unique entry.soh_not_mem first.soh_not_mem same
    cases Entry.core_injective core_eq
    exact ⟨others, rfl, after_eq⟩

theorem tokenizeFrom_end (done : List UInt8) (out : List Field) :
    tokenizeFrom (done ++ []) done.length out = .ok out := by
  rw [tokenizeFrom_eq, append_nil, if_neg (Nat.lt_irrefl _)]

/-- What the loop accepts from a field on, if that is so behind the field. -/
theorem tokenizeFrom_next {done after : List UInt8} {entry : Entry} {out table : List Field}
    (room : out.length < maxFields) (distinct : (out.map Field.tag).Nodup)
    (notTaken : ¬ (findField out entry.tag).isSome = true)
    (behind : ∀ {done' : List UInt8} {out' : List Field}, out'.length ≤ maxFields →
      (out'.map Field.tag).Nodup →
      (tokenizeFrom (done' ++ after) done'.length out' = .ok table ↔
        ∃ entries, after = text entries ∧ out'.length + entries.length ≤ maxFields ∧
          (out'.map Field.tag ++ entries.map Entry.tag).Nodup ∧
          table = out' ++ locate done'.length entries)) :
    tokenizeFrom (done ++ (entry.core ++ soh :: after)) (done.length + (entry.core.length + 1))
        (out ++ [entry.field done.length]) = .ok table ↔
      ∃ entries, entry.core ++ soh :: after = text entries ∧
        out.length + entries.length ≤ maxFields ∧
        (out.map Field.tag ++ entries.map Entry.tag).Nodup ∧
        table = out ++ locate done.length entries := by
  rw [findField_isSome] at notTaken
  have split : done ++ (entry.core ++ soh :: after) = (done ++ (entry.core ++ [soh])) ++ after := by
    rw [append_assoc, append_assoc, singleton_append]
  have position : done.length + (entry.core.length + 1) = (done ++ (entry.core ++ [soh])).length := by
    rw [length_append, length_append, length_singleton]
  have nodup : ((out ++ [entry.field done.length]).map Field.tag).Nodup := by
    rw [map_append]
    exact List.Nodup.append distinct (nodup_singleton _) (disjoint_singleton.mpr notTaken)
  have tags : ∀ entries : List Entry,
      (out ++ [entry.field done.length]).map Field.tag ++ entries.map Entry.tag =
        out.map Field.tag ++ (entry :: entries).map Entry.tag := by
    intro entries
    rw [map_append, append_assoc]
    rfl
  have table_eq : ∀ entries : List Entry,
      (out ++ [entry.field done.length]) ++ locate (done.length + (entry.core.length + 1)) entries =
        out ++ locate done.length (entry :: entries) := by
    intro entries
    rw [locate, append_assoc, singleton_append]
  rw [split, position, behind (by rwa [length_append]) nodup]
  simp only [tags, ← position, table_eq, length_append, length_singleton]
  constructor
  · rintro ⟨entries, rfl, few, apart, rfl⟩
    exact ⟨entry :: entries, (join_cons entry entries).symm,
      by rw [length_cons]; omega, apart, rfl⟩
  · rintro ⟨entries, same, few, apart, rfl⟩
    obtain ⟨others, rfl, rfl⟩ := text_eq_entry same
    exact ⟨others, rfl, by rw [length_cons] at few; omega, apart, rfl⟩

/-- The loop from any point on accepts texts of fields that the table takes, and lists them. -/
theorem tokenizeFrom_iff {done rest : List UInt8} {out table : List Field}
    (room : out.length ≤ maxFields) (distinct : (out.map Field.tag).Nodup) :
    tokenizeFrom (done ++ rest) done.length out = .ok table ↔
      ∃ entries, rest = text entries ∧ out.length + entries.length ≤ maxFields ∧
        (out.map Field.tag ++ entries.map Entry.tag).Nodup ∧
        table = out ++ locate done.length entries := by
  -- Induction on the bytes that are left; a field leaves fewer.
  induction left : rest.length using Nat.strongRecOn generalizing done rest out with
  | ind size ih =>
    by_cases empty : rest = []
    · subst empty
      rw [tokenizeFrom_end]
      constructor
      · intro same
        cases same
        exact ⟨[], rfl, room, by rwa [map_nil, append_nil], (append_nil _).symm⟩
      · rintro ⟨entries, same, -, -, rfl⟩
        cases entries with
        | nil => rw [locate, append_nil]
        | cons entry entries => simp [text, join_cons] at same
    · by_cases found : ∃ (entry : Entry) (after : List UInt8), rest = entry.core ++ soh :: after
      · obtain ⟨entry, after, rfl⟩ := found
        have fewer : after.length < size := by
          rw [← left, length_append, length_cons]
          omega
        rw [tokenizeFrom_entry]
        split
        · rename_i full
          refine iff_of_false (fun same => by cases same) ?_
          rintro ⟨entries, same, few, -, -⟩
          obtain ⟨others, rfl, -⟩ := text_eq_entry same
          rw [length_cons] at few
          omega
        · rename_i notFull
          split
          · rename_i taken
            refine iff_of_false (fun same => by cases same) ?_
            rintro ⟨entries, same, -, nodup, -⟩
            obtain ⟨others, rfl, -⟩ := text_eq_entry same
            exact disjoint_of_nodup_append nodup (findField_isSome.mp taken)
              mem_cons_self
          · rename_i notTaken
            rw [tokenizeFrom_next (Nat.lt_of_not_le notFull) distinct notTaken
              (fun room distinct => ih _ fewer room distinct rfl)]
      · have stuck : ∀ (entry : Entry) (after : List UInt8), rest ≠ entry.core ++ soh :: after :=
          fun entry after same => found ⟨entry, after, same⟩
        rw [tokenizeFrom_stuck empty stuck]
        refine iff_of_false (fun same => by cases same) ?_
        rintro ⟨entries, rfl, -⟩
        cases entries with
        | nil => exact absurd rfl empty
        | cons entry entries => exact absurd (join_cons entry entries) (stuck entry _)

theorem tokenize_iff {msg : List UInt8} {table : List Field} :
    tokenize msg = .ok table ↔
      ∃ entries, msg = text entries ∧ entries.length ≤ maxFields ∧
        (entries.map Entry.tag).Nodup ∧ table = locate 0 entries := by
  have whole := @tokenizeFrom_iff [] msg [] table (Nat.zero_le maxFields) nodup_nil
  simpa [tokenize] using whole

end Tokenize

section Table

/-- A slot of the table holds the field that has so many before it. -/
theorem fieldAt_locate (start : Nat) (before : List Entry) (entry : Entry) (after : List Entry) :
    fieldAt (locate start (before ++ entry :: after)) before.length =
      entry.field (start + (text before).length) := by
  rw [locate_append, fieldAt, getD_eq_getElem?_getD,
    getElem?_append_right (by rw [locate_length]), locate_length, Nat.sub_self]
  rfl

section Slots

variable (begin bodyLength msgType : Entry) (others : List Entry) (checkSum : Entry)

/-- The last slot has the field behind all the others. -/
theorem fieldAt_last :
    fieldAt (locate 0 (begin :: bodyLength :: msgType :: (others ++ [checkSum])))
        ((locate 0 (begin :: bodyLength :: msgType :: (others ++ [checkSum]))).length - 1) =
      checkSum.field (text (begin :: bodyLength :: msgType :: others)).length := by
  have place : (locate 0 (begin :: bodyLength :: msgType :: (others ++ [checkSum]))).length - 1 =
      (begin :: bodyLength :: msgType :: others).length := by
    simp only [locate_length, length_cons, length_append, length_nil]
    omega
  have slot := fieldAt_locate 0 (begin :: bodyLength :: msgType :: others) checkSum []
  rw [Nat.zero_add] at slot
  rw [place]
  exact slot

theorem fieldAt_two :
    fieldAt (locate 0 (begin :: bodyLength :: msgType :: (others ++ [checkSum]))) 2 =
      msgType.field (text [begin, bodyLength]).length := by
  have slot := fieldAt_locate 0 [begin, bodyLength] msgType (others ++ [checkSum])
  rw [Nat.zero_add] at slot
  exact slot

end Slots

/-- The shape is that of an envelope. -/
theorem checkEnvelopeShape_iff {entries : List Entry} :
    checkEnvelopeShape (locate 0 entries) = .ok () ↔
      ∃ begin bodyLength msgType others checkSum,
        entries = begin :: bodyLength :: msgType :: (others ++ [checkSum]) ∧
        begin.tag = tagBeginString ∧ bodyLength.tag = tagBodyLength ∧ msgType.tag = tagMsgType ∧
        checkSum.tag = tagCheckSum ∧ begin.value = beginString := by
  constructor
  · intro passed
    unfold checkEnvelopeShape at passed
    split at passed
    · cases passed
    · rename_i long
      rw [locate_length] at long
      split at passed
      · rename_i ordered
        split at passed
        · rename_i supported
          obtain ⟨tag8, tag9, tag35, tag10⟩ := ordered
          rcases entries with _ | ⟨begin, _ | ⟨bodyLength, _ | ⟨msgType, rest⟩⟩⟩
          · simp at long
          · simp at long
          · simp at long
          · rcases eq_nil_or_concat' rest with rfl | ⟨others, checkSum, rfl⟩
            · exact absurd (tag35.symm.trans tag10) (by decide)
            · rw [fieldAt_last] at tag10
              exact ⟨begin, bodyLength, msgType, others, checkSum, rfl, tag8, tag9, tag35, tag10,
                supported⟩
        · cases passed
      · cases passed
  · rintro ⟨begin, bodyLength, msgType, others, checkSum, rfl, tag8, tag9, tag35, tag10, supported⟩
    have long : ¬ (locate 0 (begin :: bodyLength :: msgType :: (others ++ [checkSum]))).length < 3 := by
      simp only [locate_length, length_cons]
      omega
    unfold checkEnvelopeShape
    rw [if_neg long, fieldAt_last, if_pos ⟨tag8, tag9, tag35, tag10⟩]
    exact if_pos supported

end Table

section Sums

theorem byteSum_from (bytes : List UInt8) (sum : UInt32) :
    (bytes.foldl (fun sum byte => sum + byte.toUInt32) sum).toNat =
      (sum.toNat + (bytes.map UInt8.toNat).sum) % 2 ^ 32 := by
  induction bytes generalizing sum with
  | nil =>
    rw [foldl_nil, map_nil, sum_nil, Nat.add_zero, Nat.mod_eq_of_lt sum.toNat_lt]
  | cons byte bytes ih =>
    rw [foldl_cons, ih, UInt32.toNat_add, UInt8.toNat_toUInt32, map_cons, sum_cons]
    omega

/-- The sum modulo 256 does not see that an `unsigned` wraps. -/
theorem byteSum_low (bytes : List UInt8) :
    (byteSum bytes &&& 0xFF).toNat = (bytes.map UInt8.toNat).sum % 256 ∧
      (byteSum bytes % 256).toNat = (bytes.map UInt8.toNat).sum % 256 := by
  have sum : (byteSum bytes).toNat = (bytes.map UInt8.toNat).sum % 2 ^ 32 := by
    rw [byteSum, byteSum_from, UInt32.toNat_zero, Nat.zero_add]
  constructor
  · rw [UInt32.toNat_and, sum]
    have low := Nat.and_two_pow_sub_one_eq_mod ((bytes.map UInt8.toNat).sum % 2 ^ 32) 8
    refine low.trans ?_
    omega
  · have width : UInt32.toNat 256 = 256 := rfl
    rw [UInt32.toNat_mod, sum, width]
    omega

theorem sizeSub_of_le {a b : Nat} (le : b ≤ a) (small : a < 2 ^ 64) : sizeSub a b = a - b := by
  unfold sizeSub
  omega

end Sums

section Verify

variable {begin bodyLength msgType checkSum : Entry} {others : List Entry}

/-- The length and the sum that are declared are those of the text. -/
theorem verifyLengthAndChecksum_iff
    (small : (text (begin :: bodyLength :: msgType :: (others ++ [checkSum]))).length < 2 ^ 64) :
    verifyLengthAndChecksum (text (begin :: bodyLength :: msgType :: (others ++ [checkSum])))
        (locate 0 (begin :: bodyLength :: msgType :: (others ++ [checkSum]))) = .ok () ↔
      Numeral bodyLength.value (text (msgType :: others)).length ∧ checkSum.value.length = 3 ∧
        Numeral checkSum.value
          (((text (begin :: bodyLength :: msgType :: others)).map UInt8.toNat).sum % 256) := by
  have parts : text (begin :: bodyLength :: msgType :: (others ++ [checkSum])) =
      text (begin :: bodyLength :: msgType :: others) ++ text [checkSum] :=
    join_append (begin :: bodyLength :: msgType :: others) [checkSum]
  have body : text (begin :: bodyLength :: msgType :: others) =
      text [begin, bodyLength] ++ text (msgType :: others) :=
    join_append [begin, bodyLength] (msgType :: others)
  rw [parts, length_append] at small
  have size : sizeSub (text (begin :: bodyLength :: msgType :: others)).length
      (text [begin, bodyLength]).length = (text (msgType :: others)).length := by
    rw [sizeSub_of_le (by rw [body, length_append]; omega) (by omega), body,
      length_append, Nat.add_sub_cancel_left]
  have low : ((text (begin :: bodyLength :: msgType :: others)).map UInt8.toNat).sum % 256 <
      2 ^ 32 := by omega
  have bodied : (text (msgType :: others)).length < 2 ^ 64 := by
    rw [body, length_append] at small
    omega
  unfold verifyLengthAndChecksum
  simp only [fieldAt_last, fieldAt_two]
  have first : (fieldAt (locate 0 (begin :: bodyLength :: msgType :: (others ++ [checkSum]))) 1).value =
      bodyLength.value := rfl
  simp only [first, Entry.field, size, parts, take_left, (byteSum_low _).1]
  constructor
  · intro passed
    split at passed
    · cases passed
    · rename_i bodyLen read
      obtain ⟨n, numeral, -, rfl⟩ := parseInt_unsigned.mp read
      split at passed
      · cases passed
      · rename_i counted
        split at passed
        · cases passed
        · rename_i three
          split at passed
          · cases passed
          · rename_i declared read'
            obtain ⟨m, numeral', -, rfl⟩ := parseInt_unsigned.mp read'
            split at passed
            · rename_i summed
              rw [Int.toNat_natCast] at counted summed
              rw [not_not.mp counted] at numeral
              rw [← summed] at numeral'
              exact ⟨numeral, not_not.mp three, numeral'⟩
            · cases passed
  · rintro ⟨numeral, three, numeral'⟩
    rw [parseInt_unsigned.mpr ⟨_, numeral, bodied, rfl⟩,
      parseInt_unsigned.mpr ⟨_, numeral', low, rfl⟩]
    simp only [Int.toNat_natCast, three, ne_eq, not_true_eq_false, if_false, if_true]

end Verify

namespace Envelope

/-- The texts of the grammar are accepted, with their fields. -/
theorem accepted (envelope : Envelope) (short : (text envelope.entries).length ≤ maxMessageLen) :
    parseEnvelope (text envelope.entries) = .ok (locate 0 envelope.entries) := by
  have small : (text envelope.entries).length < 2 ^ 64 := by
    unfold maxMessageLen at short
    omega
  have some : (text envelope.entries).isEmpty = false := by
    rw [isEmpty_eq_false_iff]
    intro none
    simp [text, entries, join_cons] at none
  have count : envelope.entries.length ≤ maxFields := by
    have few := envelope.few
    simp only [entries, length_cons, length_append, length_nil, maxFields]
    omega
  have tokens : tokenize (text envelope.entries) = .ok (locate 0 envelope.entries) :=
    tokenize_iff.mpr ⟨envelope.entries, rfl, count, envelope.distinct, rfl⟩
  have shape : checkEnvelopeShape (locate 0 envelope.entries) = .ok () :=
    checkEnvelopeShape_iff.mpr ⟨envelope.begin, envelope.bodyLength, envelope.msgType,
      envelope.others, envelope.checkSum, rfl, envelope.begin_tag, envelope.bodyLength_tag,
      envelope.msgType_tag, envelope.checkSum_tag, envelope.supported⟩
  have verified : verifyLengthAndChecksum (text envelope.entries) (locate 0 envelope.entries) =
      .ok () :=
    (verifyLengthAndChecksum_iff small).mpr ⟨envelope.length_eq, envelope.three, envelope.sum_eq⟩
  have checked : ¬ ((text envelope.entries).isEmpty = true ∨
      (text envelope.entries).length > maxMessageLen) := by
    rw [some, not_or]
    exact ⟨Bool.false_ne_true, Nat.not_lt.mpr short⟩
  rw [parseEnvelope, if_neg checked, tokens]
  simp only [bind, Except.bind, shape, verified]

/-- Nothing else is. -/
theorem of_accepted {msg : List UInt8} {table : List Field}
    (ok : parseEnvelope msg = .ok table) :
    ∃ envelope : Envelope, msg = text envelope.entries ∧ msg.length ≤ maxMessageLen ∧
      table = locate 0 envelope.entries := by
  unfold parseEnvelope at ok
  split at ok
  · cases ok
  · rename_i checked
    rw [not_or] at checked
    have short : msg.length ≤ maxMessageLen := Nat.le_of_not_lt checked.2
    obtain ⟨fields, tokens, ok⟩ := bind_ok ok
    obtain ⟨⟨⟩, shape, ok⟩ := bind_ok ok
    obtain ⟨⟨⟩, verified, ok⟩ := bind_ok ok
    cases ok
    obtain ⟨entries, rfl, count, distinct, rfl⟩ := tokenize_iff.mp tokens
    obtain ⟨begin, bodyLength, msgType, others, checkSum, rfl, tag8, tag9, tag35, tag10, supported⟩ :=
      checkEnvelopeShape_iff.mp shape
    have small : (text (begin :: bodyLength :: msgType :: (others ++ [checkSum]))).length <
        2 ^ 64 := by
      unfold maxMessageLen at short
      omega
    obtain ⟨length_eq, three, sum_eq⟩ := (verifyLengthAndChecksum_iff small).mp verified
    have few : others.length ≤ 28 := by
      simp only [length_cons, length_append, length_nil, maxFields] at count
      omega
    exact ⟨⟨begin, bodyLength, msgType, others, checkSum, few, distinct, tag8, tag9, tag35, tag10,
      supported, length_eq, three, sum_eq⟩, rfl, short, rfl⟩

end Envelope

/-- `parse_envelope` accepts exactly the grammar, and its table lists the fields in order. -/
theorem parseEnvelope_grammar (msg : List UInt8) (table : List Field) :
    parseEnvelope msg = .ok table ↔
      1 ≤ msg.length ∧ msg.length ≤ 1024 ∧
        ∃ envelope : Envelope, msg = text envelope.entries ∧ table = locate 0 envelope.entries := by
  constructor
  · intro ok
    obtain ⟨envelope, rfl, short, rfl⟩ := Envelope.of_accepted ok
    refine ⟨?_, short, envelope, rfl, rfl⟩
    rw [Envelope.entries, text_cons_length]
    omega
  · rintro ⟨-, short, envelope, rfl, rfl⟩
    exact envelope.accepted short

end Qsl.Protocol.Fix
