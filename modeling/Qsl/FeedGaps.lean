import Qsl.SequenceGaps
import Qsl.WireFormat

namespace Qsl

open List
open Protocol SequenceGaps FieldLayout

/-- What a subscriber that sends datagrams makes of a message. -/
def MarketDataMessage.encode : MarketDataMessage → List UInt8
  | .mdTrade mdSeq symbol price quantity => MdTrade.encode ⟨mdSeq, symbol, price, quantity⟩
  | .mdTopOfBook mdSeq symbol bestBid bestAsk =>
    MdTopOfBook.encode ⟨mdSeq, symbol, bestBid, bestAsk⟩

/-- Counts forward gaps; numbers at or below the last one are ignored. -/
structure SequenceTracker where
  started : Bool
  last : SeqNo
  deriving DecidableEq, Repr

namespace SequenceTracker

def new : SequenceTracker := ⟨false, 0⟩

/-- The tracker after a number, and how many were missed immediately before it. -/
def observe (tracker : SequenceTracker) (seq : SeqNo) : SequenceTracker × Nat :=
  if !tracker.started then (⟨true, seq⟩, 0)
  else if seq ≤ tracker.last then (tracker, 0)
  else ({ tracker with last := seq }, seq - tracker.last - 1)

end SequenceTracker

structure UdpFeedClient where
  good : Bool
  tracker : SequenceTracker
  totalGaps : Nat
  deriving DecidableEq, Repr

namespace UdpFeedClient

/-- A client whose socket is bound. -/
def new : UdpFeedClient := ⟨true, .new, 0⟩

/-- The bytes one call of `recvfrom` can take. -/
def bufferSize : Nat := 1024

/-- One call: what the socket delivers (`none` for an error) is decoded and its number observed.
The answer is the message, if there is one, and the gap before it. -/
def receive (client : UdpFeedClient) (arrival : Option (List UInt8)) :
    UdpFeedClient × Option MarketDataMessage × Nat :=
  if !client.good then (client, none, 0)
  else match arrival with
  | none => (client, none, 0)
  | some datagram =>
    let received := datagram.take bufferSize
    if received.length = 0 then (client, none, 0)
    else match decodeMarketData received with
    | none => (client, none, 0)
    | some message =>
      let (tracker, gap) := client.tracker.observe message.mdSeqOf
      ({ client with tracker := tracker, totalGaps := client.totalGaps + gap }, some message,
        gap)

/-- The client after the datagrams of these messages. -/
def deliver (client : UdpFeedClient) (messages : List MarketDataMessage) : UdpFeedClient :=
  (Machine.run receive client (messages.map fun message => some message.encode)).1

end UdpFeedClient

namespace MarketDataPublisher

def publishCall (publisher : MarketDataPublisher) (call : MatchingEngine × List EngineEvent) :
    MarketDataPublisher × List MarketDataMessage :=
  publisher.publish call.1 call.2

/-- All messages of a run of `publish` calls, whatever engines and events they are given. -/
def feed (calls : List (MatchingEngine × List EngineEvent)) : List MarketDataMessage :=
  (Machine.run publishCall new calls).2.flatten

theorem Told.calls {publisher : MarketDataPublisher} {before : List MarketDataMessage}
    (told : Told publisher before) (calls : List (MatchingEngine × List EngineEvent)) :
    Told (Machine.run publishCall publisher calls).1
      (before ++ (Machine.run publishCall publisher calls).2.flatten) := by
  induction calls generalizing publisher before with
  | nil =>
    rw [Machine.run_nil, flatten_nil, append_nil]
    exact told
  | cons call calls ih =>
    have later := ih (told.publish call.1 call.2).1
    rw [append_assoc] at later
    exact later

theorem feed_numbered (calls : List (MatchingEngine × List EngineEvent)) :
    (feed calls).map MarketDataMessage.mdSeqOf = List.range' 1 (feed calls).length :=
  (told_new.calls calls).numbered

end MarketDataPublisher

namespace MarketDataMessage

theorem decode_encode {message : MarketDataMessage} (fits : message.mdSeqOf < 2 ^ 64) :
    decodeMarketData message.encode = some message := by
  rw [MsgType.decodeMarketData_iff]
  cases message with
  | mdTrade mdSeq symbol price quantity =>
    have decoded := @Message.decode_encode (.mdTrade ⟨mdSeq, symbol, price, quantity⟩) fits 0
      (Nat.two_pow_pos 64) []
    rw [append_nil] at decoded
    obtain ⟨trade, accepted, same⟩ := map_ok decoded
    cases same
    exact .inl ⟨_, accepted, rfl⟩
  | mdTopOfBook mdSeq symbol bestBid bestAsk =>
    have decoded := @Message.decode_encode (.mdTopOfBook ⟨mdSeq, symbol, bestBid, bestAsk⟩) fits
      0 (Nat.two_pow_pos 64) []
    rw [append_nil] at decoded
    obtain ⟨top, accepted, same⟩ := map_ok decoded
    cases same
    exact .inr ⟨_, accepted, rfl⟩

/-- A datagram is not empty and fits the buffer. -/
theorem encode_length (message : MarketDataMessage) :
    0 < message.encode.length ∧ message.encode.length ≤ UdpFeedClient.bufferSize := by
  cases message with
  | mdTrade mdSeq symbol price quantity =>
    have whole : (MdTrade.encode ⟨mdSeq, symbol, price, quantity⟩).length = 32 :=
      Message.encode_length (.mdTrade ⟨mdSeq, symbol, price, quantity⟩) 0
    rw [encode, whole]
    decide
  | mdTopOfBook mdSeq symbol bestBid bestAsk =>
    have whole : (MdTopOfBook.encode ⟨mdSeq, symbol, bestBid, bestAsk⟩).length = 38 :=
      Message.encode_length (.mdTopOfBook ⟨mdSeq, symbol, bestBid, bestAsk⟩) 0
    rw [encode, whole]
    decide

end MarketDataMessage

namespace UdpFeedClient

variable {tracker : SequenceTracker} {gaps : Nat}

/-- A datagram of the feed is observed. -/
theorem receive_encode {message : MarketDataMessage} (fits : message.mdSeqOf < 2 ^ 64) :
    receive ⟨true, tracker, gaps⟩ (some message.encode) =
      (⟨true, (tracker.observe message.mdSeqOf).1, gaps + (tracker.observe message.mdSeqOf).2⟩,
        some message, (tracker.observe message.mdSeqOf).2) := by
  obtain ⟨positive, room⟩ := message.encode_length
  simp [receive, take_of_length_le room, Nat.ne_of_gt positive,
    MarketDataMessage.decode_encode fits]

/-- The first message starts the tracker without a gap. -/
theorem deliver_first {first : MarketDataMessage} (fits : first.mdSeqOf < 2 ^ 64)
    (rest : List MarketDataMessage) :
    new.deliver (first :: rest) = deliver ⟨true, ⟨true, first.mdSeqOf⟩, 0⟩ rest := by
  have started := @receive_encode .new 0 first fits
  rw [deliver, map_cons, Machine.run_cons, new, started]
  rfl

/-- Once started the tracker holds the highest number, and the gaps are what the raises jumped
over. -/
theorem deliver_started (top : Nat) {rest : List MarketDataMessage}
    (fits : ∀ message ∈ rest, message.mdSeqOf < 2 ^ 64) :
    (deliver ⟨true, ⟨true, top⟩, gaps⟩ rest).tracker.last =
        highest top (rest.map MarketDataMessage.mdSeqOf) ∧
      (deliver ⟨true, ⟨true, top⟩, gaps⟩ rest).totalGaps +
          raises top (rest.map MarketDataMessage.mdSeqOf) + top =
        gaps + highest top (rest.map MarketDataMessage.mdSeqOf) := by
  induction rest generalizing top gaps with
  | nil => exact ⟨rfl, rfl⟩
  | cons message rest ih =>
    obtain ⟨here, later⟩ := forall_mem_cons.mp fits
    have step : deliver ⟨true, ⟨true, top⟩, gaps⟩ (message :: rest) =
        deliver (receive ⟨true, ⟨true, top⟩, gaps⟩ (some message.encode)).1 rest := by
      rw [deliver, map_cons, Machine.run_cons]
      rfl
    rw [step, receive_encode here, map_cons]
    obtain ⟨seq, number⟩ : ∃ seq : Nat, message.mdSeqOf = seq := ⟨_, rfl⟩
    rw [number]
    by_cases raised : top < seq
    · have observed : SequenceTracker.observe ⟨true, top⟩ seq = (⟨true, seq⟩, seq - top - 1) := by
        simp [SequenceTracker.observe, Nat.not_le_of_lt raised]
      obtain ⟨last, total⟩ := @ih (gaps + (seq - top - 1)) seq later
      rw [observed, highest_raised _ raised, raises, if_pos raised]
      refine ⟨last, ?_⟩
      dsimp only
      omega
    · have observed : SequenceTracker.observe ⟨true, top⟩ seq = (⟨true, top⟩, 0) := by
        simp [SequenceTracker.observe, Nat.le_of_not_lt raised]
      rw [observed, highest_kept _ raised, raises, if_neg raised]
      exact ih top later

end UdpFeedClient

/-- The published messages numbered strictly between two that were never delivered. -/
def missing (feed delivered : List MarketDataMessage) (low high : SeqNo) : List MarketDataMessage :=
  feed.filter fun message =>
    low < message.mdSeqOf ∧ message.mdSeqOf < high ∧ message ∉ delivered

/-- Of a numbered feed the missing messages are the absent numbers. -/
theorem missing_length {feed delivered : List MarketDataMessage} {low high : Nat}
    (numbered : feed.map MarketDataMessage.mdSeqOf = List.range' 1 feed.length)
    (published : ∀ message ∈ delivered, message ∈ feed) (known : high ≤ feed.length) :
    (missing feed delivered low high).length =
      (absent low high (delivered.map MarketDataMessage.mdSeqOf)).length := by
  have unique : (feed.map MarketDataMessage.mdSeqOf).Nodup := numbered ▸ nodup_range'
  have listed : ((missing feed delivered low high).map MarketDataMessage.mdSeqOf).Nodup :=
    unique.sublist (filter_sublist.map _)
  have same : ((missing feed delivered low high).map MarketDataMessage.mdSeqOf).Perm
      (absent low high (delivered.map MarketDataMessage.mdSeqOf)) := by
    rw [perm_ext_iff_of_nodup listed (absent_nodup _ _ _)]
    intro number
    rw [mem_map, mem_absent]
    constructor
    · rintro ⟨message, member, rfl⟩
      obtain ⟨inside, between⟩ := mem_filter.mp member
      obtain ⟨above, below, never⟩ := of_decide_eq_true between
      refine ⟨above, below, ?_⟩
      rw [mem_map]
      rintro ⟨other, arrived, agree⟩
      exact never (inj_on_of_nodup_map unique (published other arrived) inside agree ▸ arrived)
    · rintro ⟨above, below, never⟩
      have member : number ∈ feed.map MarketDataMessage.mdSeqOf := by
        rw [numbered, mem_range'_1]
        omega
      obtain ⟨message, inside, rfl⟩ := mem_map.mp member
      refine ⟨message, mem_filter.mpr ⟨inside, decide_eq_true ⟨above, below, ?_⟩⟩, rfl⟩
      intro arrived
      exact never (mem_map_of_mem arrived)
  rw [← same.length_eq, length_map]

/-- The gaps a client counts over the datagrams of a feed: in order they are the missing messages;
in any order the last number is the highest, and the gaps are what its raises jumped over, no
fewer than the messages missing. -/
theorem gaps_counted (calls : List (MatchingEngine × List EngineEvent)) (first : MarketDataMessage)
    (rest : List MarketDataMessage)
    (published : ∀ message ∈ first :: rest, message ∈ MarketDataPublisher.feed calls)
    (fits : ∀ message ∈ first :: rest, message.mdSeqOf < 2 ^ 64) :
    let feed := MarketDataPublisher.feed calls
    let delivered := first :: rest
    let seqs := delivered.map MarketDataMessage.mdSeqOf
    let client := UdpFeedClient.new.deliver delivered
    (seqs.Pairwise (· ≤ ·) →
      client.totalGaps = (missing feed delivered first.mdSeqOf
        (delivered.getLast (cons_ne_nil first rest)).mdSeqOf).length) ∧
    client.tracker.last ∈ seqs ∧ (∀ seq ∈ seqs, seq ≤ client.tracker.last) ∧
    client.totalGaps + raises first.mdSeqOf (rest.map MarketDataMessage.mdSeqOf) + first.mdSeqOf =
      client.tracker.last ∧
    (missing feed delivered first.mdSeqOf client.tracker.last).length ≤ client.totalGaps := by
  intro feed delivered seqs client
  obtain ⟨here, later⟩ := forall_mem_cons.mp fits
  obtain ⟨last, total⟩ := @UdpFeedClient.deliver_started 0 first.mdSeqOf rest later
  rw [← UdpFeedClient.deliver_first here] at last total
  rw [Nat.zero_add] at total
  change client.totalGaps + _ + _ = _ at total
  have member : client.tracker.last ∈ seqs := by
    rw [last]
    exact highest_mem _ _
  have counted : (missing feed delivered first.mdSeqOf client.tracker.last).length =
      (absent first.mdSeqOf client.tracker.last (rest.map MarketDataMessage.mdSeqOf)).length := by
    have numbered := MarketDataPublisher.feed_numbered calls
    have known : client.tracker.last ∈ feed.map MarketDataMessage.mdSeqOf :=
      map_subset _ published member
    rw [numbered, mem_range'_1] at known
    rw [missing_length numbered published (by omega), map_cons,
      absent_outside _ (.inl (Nat.le_refl _))]
  rw [last] at member counted ⊢
  refine ⟨?_, member, le_highest _ _, total, ?_⟩
  · intro sorted
    have inOrder := absent_raises_sorted sorted
    have final : (delivered.getLast (cons_ne_nil first rest)).mdSeqOf =
        highest first.mdSeqOf (rest.map MarketDataMessage.mdSeqOf) := by
      rw [highest_sorted sorted]
      exact (getLast_map (by simp)).symm
    rw [final, counted]
    omega
  · have anyOrder := absent_raises_le first.mdSeqOf (rest.map MarketDataMessage.mdSeqOf)
    rw [counted]
    omega

theorem gaps_counted_two_lost :
    let trade := fun mdSeq => MarketDataMessage.mdTrade mdSeq 0 5 1
    (UdpFeedClient.new.deliver [trade 1, trade 4, trade 4]).totalGaps = 2 := by
  intro trade
  have counted := (gaps_counted
    [(.new .baseline, List.replicate 5 (.tradeEvent 1 0 1 2 5 1))] (trade 1)
    [trade 4, trade 4] (by decide) (by decide)).1 (by decide)
  rw [counted]
  decide

end Qsl
