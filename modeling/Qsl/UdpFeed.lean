import Qsl.FeedGaps
import Mathlib.Data.List.ReduceOption
import Mathlib.Data.List.Sort

/- The feed from the engine's process to a subscriber's, over datagrams that may be lost, repeated
or late. -/
namespace Qsl

open List
open Protocol FieldLayout

variable {message : MarketDataMessage} {messages : List MarketDataMessage}

structure UdpPublisher where
  good : Bool
  sendFailures : Nat
  deriving DecidableEq, Repr

namespace UdpPublisher

/-- A publisher whose socket is open. -/
def new : UdpPublisher := ⟨true, 0⟩

/-- How many bytes of a message leave; the kernel's answer is asked for by the message's number and
is `none` for an error. -/
def sent (answers : SeqNo → Option Nat) (message : MarketDataMessage) : Option Nat :=
  (answers message.mdSeqOf).map (fun n => min n message.encode.length)

/-- The message does not leave whole. -/
def failed (answers : SeqNo → Option Nat) (message : MarketDataMessage) : Bool :=
  sent answers message ≠ some message.encode.length

/-- One call, and the datagram that leaves. -/
def onMarketData (answers : SeqNo → Option Nat) (publisher : UdpPublisher)
    (message : MarketDataMessage) : UdpPublisher × Option (List UInt8) :=
  if !publisher.good then (publisher, none)
  else
    let bytes := message.encode
    match sent answers message with
    | none => ({ publisher with sendFailures := publisher.sendFailures + 1 }, none)
    | some n =>
      (if n ≠ bytes.length then { publisher with sendFailures := publisher.sendFailures + 1 }
        else publisher,
        some (bytes.take n))

end UdpPublisher

namespace MdFeed

/-- The body of the loop of `publish`, and the datagrams that leave. -/
def publishStep (answers : SeqNo → Option Nat)
    (state : (MatchingEngine × MarketDataPublisher) × UdpPublisher) (command : Command) :
    ((MatchingEngine × MarketDataPublisher) × UdpPublisher) × List (List UInt8) :=
  let (next, messages) := MarketDataPublisher.step state.1 command
  let (udp, datagrams) := Machine.run (UdpPublisher.onMarketData answers) state.2 messages
  ((next, udp), datagrams.reduceOption)

/-- The variables of `subscribe`; a line is printed for a message and the gap before it. -/
structure Subscriber where
  client : UdpFeedClient := .new
  received : Nat := 0
  idleTicks : Nat := 0
  lines : List (MarketDataMessage × Nat) := []

/-- The loop of `subscribe`; the kernel answers every call of `recvfrom`, with `none` for a
timeout. -/
def subscribe (arrivals : Nat → Option (List UInt8)) : Nat → Nat → Subscriber → Subscriber
  | 0, _, subscriber => subscriber
  | count + 1, i, subscriber =>
    match subscriber.client.receive (arrivals i) with
    | (client, none, _) =>
      let subscriber :=
        { subscriber with client := client, idleTicks := subscriber.idleTicks + 1 }
      if subscriber.idleTicks ≥ 3 then subscriber else subscribe arrivals count (i + 1) subscriber
    | (client, some message, gap) =>
      subscribe arrivals count (i + 1)
        { client := client
          received := subscriber.received + 1
          idleTicks := 0
          lines := subscriber.lines ++ [(message, gap)] }

end MdFeed

namespace MarketDataMessage

/-- A datagram that was cut off is not a message. -/
theorem decode_cut (fits : message.mdSeqOf < 2 ^ 64) {n : Nat} (cut : n < message.encode.length) :
    decodeMarketData (message.encode.take n) = none := by
  obtain ⟨msg, same, fit⟩ : ∃ msg : Message, message.encode = msg.encode 0 ∧ msg.Fits := by
    cases message with
    | mdTrade mdSeq symbol price quantity =>
      exact ⟨.mdTrade ⟨mdSeq, symbol, price, quantity⟩, rfl, fits⟩
    | mdTopOfBook mdSeq symbol bestBid bestAsk =>
      exact ⟨.mdTopOfBook ⟨mdSeq, symbol, bestBid, bestAsk⟩, rfl, fits⟩
  rw [same, Message.encode_eq] at cut ⊢
  refine Option.eq_none_iff_forall_ne_some.mpr (fun value decoded => ?_)
  obtain ⟨type, size, b, passed⟩ : ∃ type size b, validateTyped _ type size = .ok b := by
    rcases (MsgType.decodeMarketData_iff _ _).mp decoded with ⟨_, read, -⟩ | ⟨_, read, -⟩ <;>
    · obtain ⟨_, -, read⟩ := bind_ok read
      obtain ⟨b, passed, -⟩ := bind_ok read
      exact ⟨_, _, b, passed⟩
  obtain ⟨seqNo, found, whole, -⟩ := validateTyped_ok passed
  rw [length_take, length_append, writeHeader_length] at whole
  rw [length_append, writeHeader_length] at cut
  -- all of the header is there, so the length in it is the whole body's
  rw [take_append, take_of_length_le (by rw [writeHeader_length]; omega),
    decodeHeader_writeHeader _ msg.body_small
      (Message.headerSeq_lt fit (Nat.two_pow_pos 64))] at found
  cases found
  omega

end MarketDataMessage

namespace UdpPublisher

variable {answers : SeqNo → Option Nat}

/-- The publisher counts the messages that do not leave whole. -/
theorem sendFailures_run (messages : List MarketDataMessage) (failures : Nat) :
    (Machine.run (onMarketData answers) ⟨true, failures⟩ messages).1 =
      ⟨true, failures + messages.countP (failed answers)⟩ := by
  induction messages generalizing failures with
  | nil => rfl
  | cons message messages ih =>
    have step : (onMarketData answers ⟨true, failures⟩ message).1 =
        ⟨true, failures + if failed answers message then 1 else 0⟩ := by
      cases leaves : sent answers message with
      | none => simp [onMarketData, failed, leaves]
      | some n => by_cases whole : n = message.encode.length <;>
          simp [onMarketData, failed, leaves, whole]
    rw [Machine.run_cons, step, ih, countP_cons, Nat.add_assoc,
      Nat.add_comm (List.countP _ _)]

/-- What leaves is a message's encoding, as far as it was sent. -/
theorem sent_of_mem {publisher : UdpPublisher} {datagram : List UInt8}
    (member : some datagram ∈ (Machine.run (onMarketData answers) publisher messages).2) :
    ∃ message ∈ messages, ∃ n, sent answers message = some n ∧
      datagram = message.encode.take n := by
  induction messages generalizing publisher with
  | nil => cases member
  | cons message messages ih =>
    rw [Machine.run_cons] at member
    rcases mem_cons.mp member with here | later
    · refine ⟨message, mem_cons_self, ?_⟩
      unfold onMarketData at here
      split at here
      · cases here
      · split at here
        · cases here
        · rename_i n leaves
          exact ⟨n, leaves, Option.some.inj here⟩
    · obtain ⟨other, among, rest⟩ := ih later
      exact ⟨other, mem_cons_of_mem _ among, rest⟩

end UdpPublisher

namespace MdFeed

/-- The messages of a run of commands. -/
def feedOf (storage : Storage) (commands : List Command) : List MarketDataMessage :=
  (Machine.run MarketDataPublisher.step (.new storage, .new) commands).2.flatten

/-- The sends do not reach back into the publisher: they are those of its messages. -/
theorem publish_run (answers : SeqNo → Option Nat) (commands : List Command)
    (state : MatchingEngine × MarketDataPublisher) (udp : UdpPublisher) :
    let alone := Machine.run MarketDataPublisher.step state commands
    let sends := Machine.run (UdpPublisher.onMarketData answers) udp alone.2.flatten
    let run := Machine.run (publishStep answers) (state, udp) commands
    run.1 = (alone.1, sends.1) ∧ run.2.flatten = sends.2.reduceOption := by
  induction commands generalizing state udp with
  | nil => exact ⟨rfl, rfl⟩
  | cons command commands ih =>
    obtain ⟨final, rest⟩ := ih (MarketDataPublisher.step state command).1
      (Machine.run (UdpPublisher.onMarketData answers) udp
        (MarketDataPublisher.step state command).2).1
    simp only [Machine.run_cons, flatten_cons, Machine.run_append,
      reduceOption_append]
    exact ⟨final, congrArg _ rest⟩

/-- The messages at which the tracker moves: neither late nor repeated. -/
def fresh : SequenceTracker → List MarketDataMessage → List MarketDataMessage
  | _, [] => []
  | tracker, message :: messages =>
    let next := (tracker.observe message.mdSeqOf).1
    if next = tracker then fresh tracker messages else message :: fresh next messages

/-- The messages of the feed with these numbers. -/
def segment (feed : List MarketDataMessage) (first last : Nat) : List MarketDataMessage :=
  (feed.drop (first - 1)).take (last + 1 - first)

def Rises (before after : MarketDataMessage) : Prop := before.mdSeqOf < after.mdSeqOf

theorem fresh_sublist (tracker : SequenceTracker) (messages : List MarketDataMessage) :
    (fresh tracker messages).Sublist messages := by
  induction messages generalizing tracker with
  | nil => exact List.Sublist.refl _
  | cons message messages ih =>
    rw [fresh]
    split
    · exact (ih tracker).cons message
    · exact (ih _).cons_cons message

/-- Behind a number the fresh messages rise, and with the gaps they make up the distance to the
last. -/
theorem fresh_started (top : Nat) (messages : List MarketDataMessage) :
    let run := Machine.run SequenceTracker.observe ⟨true, top⟩ (messages.map (·.mdSeqOf))
    let new := fresh ⟨true, top⟩ messages
    new.Pairwise Rises ∧ (∀ message ∈ new, top < message.mdSeqOf ∧ message.mdSeqOf ≤ run.1.last) ∧
      top + new.length + run.2.sum = run.1.last ∧
      (run.1.last = top ∨ ∃ message ∈ new, run.1.last = message.mdSeqOf) := by
  induction messages generalizing top with
  | nil => simp [fresh]
  | cons message messages ih =>
    rw [map_cons, Machine.run_cons, fresh]
    by_cases raised : top < message.mdSeqOf
    · have moved : SequenceTracker.observe ⟨true, top⟩ message.mdSeqOf =
          (⟨true, message.mdSeqOf⟩, message.mdSeqOf - top - 1) := by
        simp [SequenceTracker.observe, Nat.not_le_of_lt raised]
      have differ : (⟨true, message.mdSeqOf⟩ : SequenceTracker) ≠ ⟨true, top⟩ := by
        simp only [ne_eq, SequenceTracker.mk.injEq, true_and]
        exact Nat.ne_of_gt raised
      obtain ⟨rising, bounds, total, reached⟩ := ih message.mdSeqOf
      simp only [moved, if_neg differ, length_cons, sum_cons]
      refine ⟨pairwise_cons.mpr ⟨fun later member => (bounds later member).1, rising⟩,
        ?_, by omega, .inr ?_⟩
      · intro other member
        rcases mem_cons.mp member with rfl | later
        · exact ⟨raised, Nat.le.intro ((Nat.add_assoc _ _ _).symm.trans total)⟩
        · exact ⟨raised.trans (bounds other later).1, (bounds other later).2⟩
      · rcases reached with same | ⟨other, among, same⟩
        · exact ⟨message, mem_cons_self, same⟩
        · exact ⟨other, mem_cons_of_mem _ among, same⟩
    · have kept : SequenceTracker.observe ⟨true, top⟩ message.mdSeqOf = (⟨true, top⟩, 0) := by
        simp [SequenceTracker.observe, Nat.le_of_not_lt raised]
      simp only [kept, if_true, sum_cons, Nat.zero_add]
      exact ih top

theorem fresh_new {first : MarketDataMessage} (opens : first ∈ (fresh .new messages).head?) :
    let run := Machine.run SequenceTracker.observe .new (messages.map (·.mdSeqOf))
    let new := fresh .new messages
    new.Pairwise Rises ∧
      (∀ message ∈ new, first.mdSeqOf ≤ message.mdSeqOf ∧ message.mdSeqOf ≤ run.1.last) ∧
      first.mdSeqOf + new.length + run.2.sum = run.1.last + 1 ∧
      ∃ message ∈ new, run.1.last = message.mdSeqOf := by
  cases messages with
  | nil => cases opens
  | cons message messages =>
    -- the first message starts the tracker, whatever its number
    have started : fresh .new (message :: messages) =
        message :: fresh ⟨true, message.mdSeqOf⟩ messages := rfl
    rw [started, head?_cons, Option.mem_some_iff] at opens
    subst opens
    obtain ⟨rising, bounds, total, reached⟩ := fresh_started message.mdSeqOf messages
    have zero : SequenceTracker.new.observe message.mdSeqOf = (⟨true, message.mdSeqOf⟩, 0) := rfl
    simp only [started, map_cons, Machine.run_cons, zero, length_cons, sum_cons]
    refine ⟨pairwise_cons.mpr ⟨fun later member => (bounds later member).1, rising⟩, ?_, ?_,
      ?_⟩
    · intro other member
      rcases mem_cons.mp member with rfl | later
      · exact ⟨Nat.le_refl _, Nat.le.intro ((Nat.add_assoc _ _ _).symm.trans total)⟩
      · exact ⟨Nat.le_of_lt (bounds other later).1, (bounds other later).2⟩
    · rw [← total, Nat.zero_add]
      exact (Nat.add_right_comm _ 1 _)
    · rcases reached with same | ⟨other, among, same⟩
      · exact ⟨message, mem_cons_self, same⟩
      · exact ⟨other, mem_cons_of_mem _ among, same⟩

section Segment

variable {feed : List MarketDataMessage}
  (numbered : feed.map MarketDataMessage.mdSeqOf = List.range' 1 feed.length)

include numbered

theorem mdSeqOf_getElem {i : Nat} (inside : i < feed.length) : feed[i].mdSeqOf = i + 1 := by
  have same := congrArg (fun seqs => seqs[i]?) numbered
  simp only [getElem?_map, getElem?_eq_getElem inside, Option.map_some,
    getElem?_range' inside, Option.some.injEq] at same
  rw [same, Nat.one_mul, Nat.add_comm]

theorem mdSeqOf_mem (member : message ∈ feed) :
    1 ≤ message.mdSeqOf ∧ message.mdSeqOf ≤ feed.length := by
  have known := mem_map_of_mem (f := MarketDataMessage.mdSeqOf) member
  rw [numbered, mem_range'_1] at known
  exact ⟨known.1, Nat.le_of_lt_succ (Nat.lt_of_lt_of_eq known.2 (Nat.add_comm 1 _))⟩

theorem feed_rises : feed.Pairwise Rises := by
  rw [pairwise_iff_getElem]
  intro i j inside inside' before
  rw [Rises, mdSeqOf_getElem numbered inside, mdSeqOf_getElem numbered inside']
  exact Nat.succ_lt_succ before

/-- Rising messages of the feed are in its order, without others. -/
theorem sublist_segment {first last : Nat} (rising : messages.Pairwise Rises)
    (among : ∀ message ∈ messages, message ∈ feed)
    (bounds : ∀ message ∈ messages, first ≤ message.mdSeqOf ∧ message.mdSeqOf ≤ last) :
    messages.Sublist (segment feed first last) := by
  have strict : Std.Antisymm Rises :=
    ⟨fun _ _ forth back => absurd forth (Nat.lt_asymm back)⟩
  refine sublist_of_subperm_of_pairwise (subperm_of_subset ?_ ?_) rising
    ((feed_rises numbered).sublist ((take_sublist _ _).trans (drop_sublist _ _)))
  · refine rising.imp (fun {before after} rises same => ?_)
    exact Nat.lt_irrefl _ (same ▸ rises)
  · intro message member
    obtain ⟨i, inside, rfl⟩ := mem_iff_getElem.mp (among message member)
    have within : first ≤ i + 1 ∧ i + 1 ≤ last :=
      mdSeqOf_getElem numbered inside ▸ bounds _ member
    refine mem_iff_getElem.mpr ⟨i - (first - 1), ?_, ?_⟩
    · rw [segment, length_take, length_drop]
      omega
    · simp only [segment, getElem_take, getElem_drop]
      congr 1
      omega

end Segment

/-- The messages a subscriber has printed. -/
def Subscriber.seen (subscriber : Subscriber) : List MarketDataMessage :=
  subscriber.lines.map Prod.fst

/-- What the subscriber's variables hold: its client has observed the printed messages, which were
decoded from arrivals. -/
structure Heard (arrivals : Nat → Option (List UInt8)) (subscriber : Subscriber) : Prop where
  good : subscriber.client.good = true
  tracked : Machine.run SequenceTracker.observe .new (subscriber.seen.map (·.mdSeqOf)) =
    (subscriber.client.tracker, subscriber.lines.map Prod.snd)
  counted : subscriber.client.totalGaps = (subscriber.lines.map Prod.snd).sum
  received : subscriber.received = subscriber.lines.length
  arrived : ∀ message ∈ subscriber.seen, ∃ i datagram, arrivals i = some datagram ∧
    decodeMarketData (datagram.take UdpFeedClient.bufferSize) = some message

/-- One call of `receive`: nothing, or a message that was observed. -/
theorem receive_cases (client : UdpFeedClient) (arrival : Option (List UInt8)) :
    (∃ gap, client.receive arrival = (client, none, gap)) ∨
      ∃ datagram message, arrival = some datagram ∧
        decodeMarketData (datagram.take UdpFeedClient.bufferSize) = some message ∧
        client.receive arrival =
          ({ client with
              tracker := (client.tracker.observe message.mdSeqOf).1
              totalGaps := client.totalGaps + (client.tracker.observe message.mdSeqOf).2 },
            some message, (client.tracker.observe message.mdSeqOf).2) := by
  unfold UdpFeedClient.receive
  split
  · exact .inl ⟨0, rfl⟩
  · cases arrival with
    | none => exact .inl ⟨0, rfl⟩
    | some datagram =>
      dsimp only
      split
      · exact .inl ⟨0, rfl⟩
      · split
        · exact .inl ⟨0, rfl⟩
        · exact .inr ⟨datagram, _, rfl, ‹_›, rfl⟩

section

variable {arrivals : Nat → Option (List UInt8)} {subscriber : Subscriber}
  (heard : Heard arrivals subscriber)

include heard

theorem Heard.subscribe (count i : Nat) :
    Heard arrivals (MdFeed.subscribe arrivals count i subscriber) := by
  induction count generalizing i subscriber with
  | zero => exact heard
  | succ count ih =>
    rw [MdFeed.subscribe]
    rcases receive_cases subscriber.client (arrivals i) with
      ⟨gap, same⟩ | ⟨datagram, message, delivered, decoded, same⟩
    · have idle : Heard arrivals { subscriber with idleTicks := subscriber.idleTicks + 1 } :=
        ⟨heard.good, heard.tracked, heard.counted, heard.received, heard.arrived⟩
      simp only [same]
      split
      · exact idle
      · exact ih idle (i + 1)
    · simp only [same]
      apply ih
      refine ⟨heard.good, ?_, ?_, ?_, ?_⟩
      · have tracked := heard.tracked
        rw [Subscriber.seen] at tracked ⊢
        simp only [map_append, Machine.run_append, tracked, map_cons, map_nil,
          Machine.run_cons, Machine.run_nil]
      · simp [heard.counted]
      · simp [heard.received]
      · intro other member
        rw [Subscriber.seen, map_append] at member
        rcases mem_append.mp member with before | last
        · exact heard.arrived other before
        · rw [mem_singleton.mp last]
          exact ⟨i, datagram, delivered, decoded⟩

/-- The fresh messages of a subscriber and the gaps it counted make up the part of the feed from the
first of them to the last. -/
theorem Heard.segment {feed : List MarketDataMessage}
    (numbered : feed.map MarketDataMessage.mdSeqOf = List.range' 1 feed.length)
    (published : ∀ message ∈ subscriber.seen, message ∈ feed) {first : MarketDataMessage}
    (opens : first ∈ (fresh .new subscriber.seen).head?) :
    let new := fresh .new subscriber.seen
    let part := MdFeed.segment feed first.mdSeqOf subscriber.client.tracker.last
    new.Sublist part ∧ new.length + subscriber.client.totalGaps = part.length := by
  obtain ⟨rising, bounds, total, last, among, reached⟩ := fresh_new opens
  rw [heard.tracked] at bounds total reached
  rw [← heard.counted] at total
  have inFeed : ∀ message ∈ fresh .new subscriber.seen, message ∈ feed :=
    fun message member => published message ((fresh_sublist _ _).subset member)
  refine ⟨sublist_segment numbered rising inFeed bounds, ?_⟩
  have known := mdSeqOf_mem numbered (inFeed last among)
  have least := mdSeqOf_mem numbered (inFeed first (mem_of_mem_head? opens))
  rw [← reached] at known
  rw [MdFeed.segment, length_take, length_drop]
  generalize subscriber.client.tracker.last = high at *
  generalize first.mdSeqOf = low at *
  simp only [SeqNo] at *
  omega

end

/-- On an honest network what is decoded was published and left whole. -/
theorem whole_of_decoded {answers : SeqNo → Option Nat} {feed : List MarketDataMessage}
    {udp : UdpPublisher} (fits : ∀ message ∈ feed, message.mdSeqOf < 2 ^ 64)
    {datagram : List UInt8}
    (left : datagram ∈ (Machine.run (UdpPublisher.onMarketData answers) udp feed).2.reduceOption)
    (decoded : decodeMarketData (datagram.take UdpFeedClient.bufferSize) = some message) :
    message ∈ feed ∧ UdpPublisher.failed answers message = false := by
  obtain ⟨original, member, n, sent, rfl⟩ :=
    UdpPublisher.sent_of_mem (reduceOption_mem_iff.mp left)
  obtain ⟨-, room⟩ := original.encode_length
  rw [take_of_length_le (Nat.le_trans (length_take_le' _ _) room)] at decoded
  by_cases cut : n < original.encode.length
  · rw [MarketDataMessage.decode_cut (fits original member) cut] at decoded
    cases decoded
  · have whole : n = original.encode.length := by
      obtain ⟨m, -, same⟩ := Option.map_eq_some_iff.mp sent
      omega
    rw [whole, take_length, MarketDataMessage.decode_encode (fits original member)] at decoded
    cases decoded
    exact ⟨member, by simp [UdpPublisher.failed, sent, whole]⟩

/-- The feed end to end, over a network that loses, repeats, delays and adds noise but forges no
message: what a subscriber prints was published; leaving late and repeated messages out, it has the
feed's messages from its first on but for the gaps it counts, which cover every failed send between;
and with no gap from the first message up to the publisher's last, it knows the engine's tops of book
and all the trades. -/
theorem feed_followed (storage : Storage) (commands : List Command) (answers : SeqNo → Option Nat)
    (arrivals : Nat → Option (List UInt8)) (count : Nat)
    (numbers : (feedOf storage commands).length < 2 ^ 64)
    (honest : ∀ i datagram, arrivals i = some datagram →
      datagram ∈ (Machine.run (publishStep answers) ((.new storage, .new), .new)
        commands).2.flatten ∨
      decodeMarketData (datagram.take UdpFeedClient.bufferSize) = none) :
    let feed := feedOf storage commands
    let server := (Machine.run (publishStep answers) ((.new storage, .new), .new) commands).1
    let subscriber := subscribe arrivals count 0 {}
    let new := fresh .new subscriber.seen
    (∀ message ∈ subscriber.seen, message ∈ feed) ∧
      (∀ first ∈ new.head?,
        let part := segment feed first.mdSeqOf subscriber.client.tracker.last
        new.Sublist part ∧ new.length + subscriber.client.totalGaps = part.length ∧
          part.countP (UdpPublisher.failed answers) ≤ subscriber.client.totalGaps) ∧
      (new.head?.map MarketDataMessage.mdSeqOf = some 1 →
        subscriber.client.tracker.last = server.1.2.mdSeq → subscriber.client.totalGaps = 0 →
        new = feed ∧ server.2.sendFailures = 0 ∧
          (∀ symbol, (new.filterMap (MarketDataMessage.top? symbol)).getLast?.getD .empty =
            ⟨server.1.1.bestBid symbol, server.1.1.bestAsk symbol⟩) ∧
          new.filterMap MarketDataMessage.trade? =
            (Machine.run MatchingEngine.apply (.new storage) commands).2.flatten.filterMap
              EngineEvent.fill?) := by
  intro feed server subscriber new
  obtain ⟨state, datagrams⟩ := publish_run answers commands (.new storage, .new) .new
  have state : server = _ := state
  obtain ⟨told, cached⟩ := (inStep_new storage).run commands
  rw [nil_append] at told
  have numbered : feed.map MarketDataMessage.mdSeqOf = List.range' 1 feed.length := told.numbered
  have fits : ∀ message ∈ feed, message.mdSeqOf < 2 ^ 64 := fun message member =>
    Nat.lt_of_le_of_lt (mdSeqOf_mem numbered member).2 numbers
  have heard : Heard arrivals subscriber :=
    Heard.subscribe ⟨rfl, rfl, rfl, rfl, fun _ absent => by cases absent⟩ count 0
  have whole : ∀ message ∈ subscriber.seen,
      message ∈ feed ∧ UdpPublisher.failed answers message = false := by
    intro message member
    obtain ⟨i, datagram, arrived, decoded⟩ := heard.arrived message member
    rcases honest i datagram arrived with left | noise
    · rw [datagrams] at left
      exact whole_of_decoded fits left decoded
    · rw [noise] at decoded
      cases decoded
  have parts : ∀ first ∈ new.head?,
      let part := segment feed first.mdSeqOf subscriber.client.tracker.last
      new.Sublist part ∧ new.length + subscriber.client.totalGaps = part.length ∧
        part.countP (UdpPublisher.failed answers) ≤ subscriber.client.totalGaps := by
    intro first opens part
    obtain ⟨inOrder, total⟩ : new.Sublist part ∧
        new.length + subscriber.client.totalGaps = part.length :=
      heard.segment numbered (fun message member => (whole message member).1) opens
    refine ⟨inOrder, total, ?_⟩
    -- what was sent in part or not at all is not among the fresh messages
    have sent : new.countP (fun message => decide ¬ UdpPublisher.failed answers message) =
        new.length := by
      refine countP_eq_length.mpr (fun message member => ?_)
      simp [(whole message ((fresh_sublist _ _).subset member)).2]
    have most := List.Sublist.countP_le inOrder
      (p := fun message => decide ¬ UdpPublisher.failed answers message)
    have both := part.length_eq_countP_add_countP (UdpPublisher.failed answers)
    omega
  refine ⟨fun message member => (whole message member).1, parts, ?_⟩
  intro opens reached noGap
  obtain ⟨first, head, one⟩ := Option.map_eq_some_iff.mp opens
  obtain ⟨inOrder, total, failures⟩ := parts first head
  have last : server.1.2.mdSeq = feed.length := by
    rw [state]
    exact told.counted
  have all : segment feed first.mdSeqOf subscriber.client.tracker.last = feed := by
    rw [one, reached, last, segment]
    simp
  rw [all, noGap] at failures
  rw [all] at inOrder total
  have same : new = feed := inOrder.eq_of_length (by omega)
  have sends : server.2.sendFailures = feed.countP (UdpPublisher.failed answers) := by
    rw [state]
    exact (congrArg UdpPublisher.sendFailures (UdpPublisher.sendFailures_run _ 0)).trans
      (Nat.zero_add _)
  obtain ⟨-, trades, -⟩ := (inStep_new storage).run_messages commands
  refine ⟨same, by omega, fun symbol => ?_, ?_⟩
  · rw [same]
    have known := told.last symbol
    rw [MarketDataPublisher.told, getLast?_cons, cached symbol] at known
    rw [state]
    exact Option.some.inj known
  · rw [same]
    show (feedOf storage commands).filterMap _ = _
    rw [feedOf, filterMap_flatten, trades, ← filterMap_flatten]

/-- Of three tops of book the first arrives twice and the second is not sent. -/
theorem feed_followed_lossy :
    let commands := [.registerSymbol [65], .newLimit 0 1 .buy 5 1 .gtc, .newLimit 0 2 .buy 6 1 .gtc,
      .newLimit 0 3 .buy 7 1 .gtc]
    let answers := fun seq => if seq = 2 then none else some 1024
    let top := fun seq price => MarketDataMessage.mdTopOfBook seq 0 (some price) none
    let arrivals := fun i => ([top 1 5, top 1 5, top 3 7].map MarketDataMessage.encode)[i]?
    let subscriber := subscribe arrivals 20 0 {}
    feedOf .baseline commands = [top 1 5, top 2 6, top 3 7] ∧
      subscriber.seen = [top 1 5, top 1 5, top 3 7] ∧
      [top 1 5, top 3 7].Sublist [top 1 5, top 2 6, top 3 7] ∧
      2 + subscriber.client.totalGaps = 3 ∧
      [top 1 5, top 2 6, top 3 7].countP (UdpPublisher.failed answers) ≤
        subscriber.client.totalGaps := by
  intro commands answers top arrivals
  have followed := feed_followed .baseline commands answers arrivals 20 (by decide +kernel) (by
    intro i datagram arrived
    have listed : datagram ∈ [top 1 5, top 1 5, top 3 7].map MarketDataMessage.encode :=
      mem_of_getElem? arrived
    have sent : ∀ datagram ∈ [top 1 5, top 1 5, top 3 7].map MarketDataMessage.encode,
        datagram ∈ (Machine.run (publishStep answers) ((.new .baseline, .new), .new)
          commands).2.flatten := by decide +kernel
    exact .inl (sent datagram listed))
  have new : fresh .new (subscribe arrivals 20 0 {}).seen = [top 1 5, top 3 7] := by decide +kernel
  have part : segment (feedOf .baseline commands) (top 1 5).mdSeqOf
      (subscribe arrivals 20 0 {}).client.tracker.last = [top 1 5, top 2 6, top 3 7] := by
    decide +kernel
  have told := followed.2.1 (top 1 5) (by rw [new]; rfl)
  simp only [new, part] at told
  exact ⟨by decide +kernel, by decide +kernel, told⟩

end MdFeed

end Qsl
