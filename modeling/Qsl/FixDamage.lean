import Qsl.FixRoundTrip

/- No two texts of the FIX grammar are close: a damaged message is refused. -/
namespace Qsl.Protocol.Fix

open List
open Decimal DelimitedText

/-- A message with one byte changed, cut short or continued. -/
def Damaged (msg msg' : List UInt8) : Prop :=
  DiffersOnce msg msg' ∨ (msg' <+: msg ∧ msg' ≠ msg) ∨ (msg <+: msg' ∧ msg' ≠ msg)

section Sums

/-- One changed byte changes the sum. -/
theorem sum_differs {bytes bytes' : List UInt8} (differ : DiffersOnce bytes bytes') :
    (bytes.map UInt8.toNat).sum % 256 ≠ (bytes'.map UInt8.toNat).sum % 256 := by
  obtain ⟨before, byte, byte', after, other, rfl, rfl⟩ := differ
  have apart : byte.toNat ≠ byte'.toNat := fun same => other (UInt8.toNat_inj.mp same)
  have small := byte.toNat_lt
  have small' := byte'.toNat_lt
  simp only [map_append, map_cons, sum_append, sum_cons]
  omega

end Sums

namespace Envelope

variable {envelope envelope' : Envelope}

/-- The checksum field cannot be another with something in front: its tag has no equals sign. -/
theorem checkSum_core_ne (piece : Entry) (byte : UInt8) :
    envelope.checkSum.core ≠ piece.core ++ byte :: envelope'.checkSum.core := by
  intro same
  have split : piece.core ++ byte :: envelope'.checkSum.core =
      (piece.core ++ byte :: envelope'.checkSum.tagText) ++ equals :: envelope'.checkSum.value := by
    rw [append_assoc]
    rfl
  rw [split] at same
  obtain ⟨tag_eq, -⟩ := append_inj' same (by
    rw [length_cons, length_cons, envelope.three, envelope'.three])
  refine envelope.checkSum.equals_not_mem ?_
  rw [tag_eq]
  refine mem_append_left _ ?_
  exact mem_append_right _ mem_cons_self

/-- Checksum fields of one length, for one sum, are the same. -/
theorem checkSum_unique (same : text envelope.front = text envelope'.front)
    (length : envelope.checkSum.core.length = envelope'.checkSum.core.length) :
    envelope.checkSum.core = envelope'.checkSum.core := by
  have sum := envelope.sum_eq
  have sum' := envelope'.sum_eq
  have value : envelope.checkSum.value = envelope'.checkSum.value := by
    change text (envelope.begin :: _) = text (envelope'.begin :: _) at same
    rw [← same] at sum'
    exact sum.text_unique sum' (by rw [envelope.three, envelope'.three])
  have tag : envelope.checkSum.tagText = envelope'.checkSum.tagText := by
    have numeral := envelope.checkSum.numeral
    have numeral' := envelope'.checkSum.numeral
    rw [show number envelope.checkSum.tagText = tagCheckSum from envelope.checkSum_tag] at numeral
    rw [show number envelope'.checkSum.tagText = tagCheckSum from envelope'.checkSum_tag] at numeral'
    refine numeral.text_unique numeral' ?_
    simp only [Entry.core, length_append, length_cons, value] at length
    omega
  rw [Entry.core, Entry.core, value, tag]

/-- Two texts of the grammar never differ in one byte. -/
theorem not_differsOnce : ¬ DiffersOnce (text envelope.entries) (text envelope'.entries) := by
  intro differ
  rw [entries_eq, entries_eq] at differ
  rcases Nat.lt_trichotomy (text envelope.front).length (text envelope'.front).length with
    later | same | earlier
  · obtain ⟨piece, byte, -, split⟩ := differ.split Entry.soh_not_mem Entry.core_injective later
    exact checkSum_core_ne piece byte split
  · rcases differ.aligned same with ⟨front, length⟩ | ⟨core, differ⟩
    · have core := checkSum_unique front length
      refine differ.ne ?_
      rw [text, text, join_snoc, join_snoc, core]
      change text envelope.front ++ _ = text envelope'.front ++ _
      rw [show text envelope.front = text envelope'.front from front]
    · have same : envelope.checkSum.value = envelope'.checkSum.value := by
        rw [Entry.core_injective core]
      have sum := envelope.sum_eq.2.2
      have sum' := envelope'.sum_eq.2.2
      rw [same, sum'] at sum
      exact sum_differs differ sum.symm
  · obtain ⟨piece, byte, -, split⟩ := differ.symm.split Entry.soh_not_mem Entry.core_injective earlier
    exact checkSum_core_ne piece byte split

/-- A text of the grammar does not go on as another: the field 10 would be there twice. -/
theorem not_continued {rest : List UInt8}
    (same : text envelope'.entries = text envelope.entries ++ rest) : rest = [] := by
  obtain ⟨others, entries, rfl⟩ := join_split Entry.soh_not_mem Entry.core_injective same
  rcases eq_nil_or_concat' others with rfl | ⟨before, last, rfl⟩
  · rfl
  · exfalso
    have tags := envelope'.distinct
    change (envelope'.entries.map Entry.tag).Nodup at tags
    rw [entries, map_append] at tags
    have last_tag : last.tag = tagCheckSum := by
      rw [entries_eq, ← append_assoc] at entries
      have last_eq := (append_inj' entries rfl).2
      cases last_eq
      exact envelope'.checkSum_tag
    have here : tagCheckSum ∈ envelope.entries.map Entry.tag := by
      rw [entries_eq, map_append]
      exact mem_append_right _ (by simp [envelope.checkSum_tag])
    have there : tagCheckSum ∈ (before ++ [last]).map Entry.tag := by
      rw [map_append]
      exact mem_append_right _ (by simp [last_tag])
    exact disjoint_of_nodup_append tags here there

end Envelope

theorem not_accepted_damaged {msg msg' : List UInt8} {table table' : List Field}
    (accepted : parseEnvelope msg = .ok table) (accepted' : parseEnvelope msg' = .ok table') :
    ¬ Damaged msg msg' := by
  obtain ⟨envelope, rfl, -⟩ := Envelope.of_accepted accepted
  obtain ⟨envelope', rfl, -⟩ := Envelope.of_accepted accepted'
  rintro (differ | ⟨⟨rest, same⟩, other⟩ | ⟨⟨rest, same⟩, other⟩)
  · exact Envelope.not_differsOnce differ
  · have none := Envelope.not_continued same.symm
    rw [none, append_nil] at same
    exact other same
  · have none := Envelope.not_continued same.symm
    rw [none, append_nil] at same
    exact other same.symm

/-- What the envelope check refuses, every reader refuses. -/
theorem refused {msg : List UInt8} {reason : FixError} (error : parseEnvelope msg = .error reason) :
    decodeNewOrder msg = .error reason ∧ decodeCancelOrder msg = .error reason ∧
      peekMsgType msg = .error reason ∧ peekSeq msg = .error reason := by
  refine ⟨?_, ?_, ?_, ?_⟩
  · rw [decodeNewOrder, decodeTyped, error]
    rfl
  · rw [decodeCancelOrder, decodeTyped, error]
    rfl
  · rw [peekMsgType, error]
    rfl
  · rw [peekSeq, error]
    rfl

/-- Damage to an accepted message is detected by the envelope check, and so by every reader. -/
theorem damage_detected {msg msg' : List UInt8} {table : List Field}
    (accepted : parseEnvelope msg = .ok table) (damaged : Damaged msg msg') :
    ∃ reason, parseEnvelope msg' = .error reason ∧ decodeNewOrder msg' = .error reason ∧
      decodeCancelOrder msg' = .error reason ∧ peekMsgType msg' = .error reason ∧
      peekSeq msg' = .error reason := by
  cases parsed : parseEnvelope msg' with
  | ok table' => exact absurd damaged (not_accepted_damaged accepted parsed)
  | error reason => exact ⟨reason, rfl, refused parsed⟩

/-- A cancel request with a separator too many. -/
theorem damage_detected_cancel :
    ∃ reason, parseEnvelope (encodeCancelOrder ⟨42, 3⟩ 99 ++ [soh]) = .error reason ∧
      decodeNewOrder (encodeCancelOrder ⟨42, 3⟩ 99 ++ [soh]) = .error reason ∧
      decodeCancelOrder (encodeCancelOrder ⟨42, 3⟩ 99 ++ [soh]) = .error reason ∧
      peekMsgType (encodeCancelOrder ⟨42, 3⟩ 99 ++ [soh]) = .error reason ∧
      peekSeq (encodeCancelOrder ⟨42, 3⟩ 99 ++ [soh]) = .error reason := by
  obtain ⟨-, fields, accepted, -⟩ := @encodeCancelOrder_accepted ⟨42, 3⟩ 99 (by decide)
  have longer : encodeCancelOrder ⟨42, 3⟩ 99 ++ [soh] ≠ encodeCancelOrder ⟨42, 3⟩ 99 := by
    intro same
    have length := congrArg List.length same
    rw [length_append, length_singleton] at length
    omega
  exact damage_detected accepted (.inr (.inr ⟨prefix_append _ _, longer⟩))

end Qsl.Protocol.Fix
