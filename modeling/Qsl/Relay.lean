import Qsl.Machine

/- A relay: a source feeds a worker through a queue, the worker feeds a receiver through
another, and each party tells the next one when it is done. -/

structure Relay (σ ι ο : Type) where
  source : List ι
  sourceDone : Bool
  inbound : List ι
  state : σ
  /-- What the worker has made and not yet put down. -/
  hand : Option ο
  workDone : Bool
  outbound : List ο
  delivered : List ο
  ended : Bool

namespace Relay

open List

variable {σ ι ο : Type}

/-- Nothing has moved yet. -/
def init (start : σ) (all : List ι) : Relay σ ι ο :=
  ⟨all, false, [], start, none, false, [], [], false⟩

/-- All that the worker has made, in order. -/
def made (relay : Relay σ ι ο) : List ο := relay.delivered ++ relay.outbound ++ relay.hand.toList

/-- What may happen next. The worker and the receiver only leave when nothing can come any
more. -/
inductive Step (work : σ → ι → σ × ο) : Relay σ ι ο → Relay σ ι ο → Prop
  | send {relay : Relay σ ι ο} {item : ι} {rest : List ι} (next : relay.source = item :: rest) :
      Step work relay { relay with source := rest, inbound := relay.inbound ++ [item] }
  | close {relay : Relay σ ι ο} (sent : relay.source = []) :
      Step work relay { relay with sourceDone := true }
  | take {relay : Relay σ ι ο} {item : ι} {rest : List ι} (next : relay.inbound = item :: rest)
      (free : relay.hand = none) :
      Step work relay { relay with
        inbound := rest
        state := (work relay.state item).1
        hand := some (work relay.state item).2 }
  | put {relay : Relay σ ι ο} {item : ο} (held : relay.hand = some item) :
      Step work relay { relay with hand := none, outbound := relay.outbound ++ [item] }
  | finish {relay : Relay σ ι ο} (closed : relay.sourceDone = true) (empty : relay.inbound = [])
      (free : relay.hand = none) :
      Step work relay { relay with workDone := true }
  | deliver {relay : Relay σ ι ο} {item : ο} {rest : List ο}
      (next : relay.outbound = item :: rest) :
      Step work relay { relay with outbound := rest, delivered := relay.delivered ++ [item] }
  | stop {relay : Relay σ ι ο} (finished : relay.workDone = true) (empty : relay.outbound = []) :
      Step work relay { relay with ended := true }

/-- Every item is where the order puts it: taken and worked on in turn, on its way, or still at
the source. Whoever is done has left nothing behind. -/
structure Lossless (work : σ → ι → σ × ο) (start : σ) (all : List ι) (relay : Relay σ ι ο) :
    Prop where
  whole : ∃ taken, taken ++ relay.inbound ++ relay.source = all ∧
    Machine.run work start taken = (relay.state, relay.made)
  closed : relay.sourceDone = true → relay.source = []
  finished : relay.workDone = true →
    relay.sourceDone = true ∧ relay.inbound = [] ∧ relay.hand = none
  stopped : relay.ended = true → relay.workDone = true ∧ relay.outbound = []

variable {work : σ → ι → σ × ο} {start : σ} {all : List ι} {relay next : Relay σ ι ο}

theorem lossless_init : Lossless work start all (init start all) where
  whole := ⟨[], rfl, rfl⟩
  closed := nofun
  finished := nofun
  stopped := nofun

theorem Lossless.step (kept : Lossless work start all relay) (step : Step work relay next) :
    Lossless work start all next := by
  obtain ⟨taken, parts, ran⟩ := kept.whole
  cases step with
  | @send item rest source =>
    rw [source] at parts
    refine ⟨⟨taken, by simpa using parts, ran⟩, ?_, ?_, kept.stopped⟩
    · intro closed
      rw [kept.closed closed] at source
      cases source
    · intro finished
      rw [kept.closed (kept.finished finished).1] at source
      cases source
  | close sent =>
    exact ⟨⟨taken, parts, ran⟩, fun _ => sent,
      fun finished => ⟨rfl, (kept.finished finished).2⟩, kept.stopped⟩
  | @take item rest inbound free =>
    refine ⟨⟨taken ++ [item], ?_, ?_⟩, kept.closed, ?_, kept.stopped⟩
    · rw [inbound] at parts
      simpa using parts
    · rw [Machine.run_append, ran, Machine.run_cons, Machine.run_nil]
      simp [made, free]
    · intro finished
      rw [(kept.finished finished).2.1] at inbound
      cases inbound
  | @put item held =>
    refine ⟨⟨taken, parts, ?_⟩, kept.closed, ?_, ?_⟩
    · rw [ran]
      simp [made, held]
    · intro finished
      rw [(kept.finished finished).2.2] at held
      cases held
    · intro ended
      rw [(kept.finished (kept.stopped ended).1).2.2] at held
      cases held
  | finish closed empty free =>
    exact ⟨⟨taken, parts, ran⟩, kept.closed, fun _ => ⟨closed, empty, free⟩,
      fun ended => ⟨rfl, (kept.stopped ended).2⟩⟩
  | @deliver item rest outbound =>
    refine ⟨⟨taken, parts, ?_⟩, kept.closed, kept.finished, ?_⟩
    · rw [ran]
      simp [made, outbound]
    · intro ended
      rw [(kept.stopped ended).2] at outbound
      cases outbound
  | stop finished empty =>
    exact ⟨⟨taken, parts, ran⟩, kept.closed, kept.finished, fun _ => ⟨finished, empty⟩⟩

/-- Once the receiver has left, everything was worked on in turn and delivered. -/
theorem Lossless.complete (kept : Lossless work start all relay) (ended : relay.ended = true) :
    Machine.run work start all = (relay.state, relay.delivered) ∧
      relay.made = relay.delivered := by
  obtain ⟨taken, parts, ran⟩ := kept.whole
  obtain ⟨finished, empty⟩ := kept.stopped ended
  obtain ⟨closed, drained, free⟩ := kept.finished finished
  have delivered : relay.made = relay.delivered := by
    rw [made, empty, free, append_nil, Option.toList_none, append_nil]
  rw [drained, kept.closed closed, append_nil, append_nil] at parts
  rw [← parts, ran, delivered]
  exact ⟨rfl, rfl⟩

/-- At any time, what was made is the first part of what all items make. -/
theorem Lossless.made_eq (kept : Lossless work start all relay) :
    ∃ taken, taken ++ relay.inbound ++ relay.source = all ∧
      relay.made = (Machine.run work start all).2.take taken.length := by
  obtain ⟨taken, parts, ran⟩ := kept.whole
  refine ⟨taken, parts, ?_⟩
  have made : (Machine.run work start taken).2 = relay.made := by rw [ran]
  rw [← parts, append_assoc, Machine.run_append, made,
    ← Machine.run_length start taken, made, take_left]

end Relay
