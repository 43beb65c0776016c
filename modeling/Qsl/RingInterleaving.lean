import Qsl.Machine
import Qsl.SpscRing
import Mathlib.Data.List.Induction

/- The ring's two calls cut into their single steps, in any interleaving of one producer and one
consumer. -/
namespace Qsl.SpscRing

open CircularBuffer (next span)

/-- Where the producer is in `emplace`; `n` is always the slot after `tail`. -/
inductive Producer (α : Type) (capacity : Nat) where
  | idle
  | tailLoaded (value : α) (tail : Fin (capacity + 1))
  | headLoaded (value : α) (tail head : Fin (capacity + 1))
  | cleared (value : α) (tail : Fin (capacity + 1))
  | written (value : α) (tail : Fin (capacity + 1))

/-- Where the consumer is in `try_pop`. -/
inductive Consumer (α : Type) (capacity : Nat) where
  | idle
  | headLoaded (head : Fin (capacity + 1))
  | tailLoaded (head tail : Fin (capacity + 1))
  | cleared (head : Fin (capacity + 1))
  | taken (head : Fin (capacity + 1)) (value : α)

structure System (α : Type) (capacity : Nat) where
  ring : SpscRing α capacity
  producer : Producer α capacity
  consumer : Consumer α capacity

/-- Who takes the next step; a producer that begins a call pushes `value`. -/
inductive Move (α : Type) where
  | produce (value : α)
  | consume

def Move.isProduce {α : Type} : Move α → Bool
  | .produce _ => true
  | .consume => false

/-- What a call returns at its last step. -/
inductive Outcome (α : Type) where
  | pushed (value : α)
  | pushRefused
  | popped (value : α)
  | popRefused
  deriving DecidableEq, Repr

section Steps

variable {α : Type} {capacity : Nat}

def start [Inhabited α] : System α capacity := ⟨new, .idle, .idle⟩

def produce (system : System α capacity) (upcoming : α) : System α capacity × Option (Outcome α) :=
  match system.producer with
  | .idle => ({ system with producer := .tailLoaded upcoming system.ring.tail }, none)
  | .tailLoaded value tail =>
    ({ system with producer := .headLoaded value tail system.ring.head }, none)
  | .headLoaded value tail head =>
    if next tail = head then ({ system with producer := .idle }, some .pushRefused)
    else ({ system with producer := .cleared value tail }, none)
  | .cleared value tail =>
    ({ system with
        ring := { system.ring with buffer := system.ring.buffer.set tail value tail.isLt }
        producer := .written value tail }, none)
  | .written value tail =>
    ({ system with ring := { system.ring with tail := next tail }, producer := .idle },
      some (.pushed value))

/-- `moved` is what moving a value out of its slot leaves there. -/
def consume (moved : α → α) (system : System α capacity) :
    System α capacity × Option (Outcome α) :=
  match system.consumer with
  | .idle => ({ system with consumer := .headLoaded system.ring.head }, none)
  | .headLoaded head => ({ system with consumer := .tailLoaded head system.ring.tail }, none)
  | .tailLoaded head tail =>
    if head = tail then ({ system with consumer := .idle }, some .popRefused)
    else ({ system with consumer := .cleared head }, none)
  | .cleared head =>
    let value := system.ring.buffer.get head
    ({ system with
        ring := { system.ring with buffer := system.ring.buffer.set head (moved value) head.isLt }
        consumer := .taken head value }, none)
  | .taken head value =>
    ({ system with ring := { system.ring with head := next head }, consumer := .idle },
      some (.popped value))

def step (moved : α → α) (system : System α capacity) :
    Move α → System α capacity × Option (Outcome α)
  | .produce value => produce system value
  | .consume => consume moved system

variable (ring : SpscRing α capacity) (producer : Producer α capacity)
variable (consumer : Consumer α capacity) (value : α)

theorem produce_compare (tail head : Fin (capacity + 1)) (upcoming : α) :
    produce ⟨ring, .headLoaded value tail head, consumer⟩ upcoming =
      if next tail = head then (⟨ring, .idle, consumer⟩, some .pushRefused)
      else (⟨ring, .cleared value tail, consumer⟩, none) := rfl

theorem consume_compare (moved : α → α) (head tail : Fin (capacity + 1)) :
    consume moved ⟨ring, producer, .tailLoaded head tail⟩ =
      if head = tail then (⟨ring, producer, .idle⟩, some .popRefused)
      else (⟨ring, producer, .cleared head⟩, none) := rfl

end Steps

/- A call whose steps are not interrupted is the atomic call of the ring. -/
section Alone

variable {α : Type} {capacity : Nat} (ring : SpscRing α capacity)

/-- A push that nothing interrupts is `tryPush`. -/
def PushAlone : Prop :=
  ∀ (consumer : Consumer α capacity) (moved : α → α) (value again : α),
    ((ring.tryPush value).2 = true →
      Machine.run (step moved) ⟨ring, .idle, consumer⟩
          (.produce value :: List.replicate 4 (.produce again)) =
        (⟨(ring.tryPush value).1, .idle, consumer⟩,
          [none, none, none, none, some (.pushed value)])) ∧
    ((ring.tryPush value).2 = false →
      Machine.run (step moved) ⟨ring, .idle, consumer⟩
          (.produce value :: List.replicate 2 (.produce again)) =
        (⟨(ring.tryPush value).1, .idle, consumer⟩, [none, none, some .pushRefused]))

theorem produce_alone : ring.PushAlone := by
  intro consumer moved value again
  unfold tryPush
  by_cases full : next ring.tail = ring.head
  · simp [full, Machine.run, step, produce]
  · simp [full, Machine.run, step, produce]

/-- A pop that nothing interrupts is `tryPop`, which keeps the value in its slot. -/
def PopAlone : Prop :=
  ∀ producer : Producer α capacity,
    (∀ value, ring.tryPop.2 = some value →
      Machine.run (step id) ⟨ring, producer, .idle⟩ (List.replicate 5 .consume) =
        (⟨ring.tryPop.1, producer, .idle⟩, [none, none, none, none, some (.popped value)])) ∧
    (ring.tryPop.2 = none →
      Machine.run (step id) ⟨ring, producer, .idle⟩ (List.replicate 3 .consume) =
        (⟨ring.tryPop.1, producer, .idle⟩, [none, none, some .popRefused]))

theorem consume_alone : ring.PopAlone := by
  intro producer
  have unchanged : ring.buffer.set ring.head (ring.buffer.get ring.head) ring.head.isLt =
      ring.buffer := Vector.set_getElem_self ring.head.isLt
  unfold tryPop
  by_cases empty : ring.head = ring.tail
  · simp [empty, Machine.run, step, consume]
  · simp [empty, Machine.run, step, consume, unchanged]

end Alone

section Invariant

variable {α : Type} {capacity : Nat}

/-- What the producer may rely on, whatever the consumer does meanwhile: the tail is its own, and
the head only comes closer to the tail. -/
def Producer.Relies (ring : SpscRing α capacity) : Producer α capacity → Prop
  | .idle => True
  | .tailLoaded _ tail => tail = ring.tail
  | .headLoaded _ tail head =>
    tail = ring.tail ∧ span ring.head ring.tail ≤ span head ring.tail
  | .cleared _ tail => tail = ring.tail ∧ next tail ≠ ring.head
  | .written value tail =>
    tail = ring.tail ∧ next tail ≠ ring.head ∧ ring.buffer.get tail = value

/-- The same for the consumer: the head is its own, and the tail only moves away from it. -/
def Consumer.Relies (ring : SpscRing α capacity) : Consumer α capacity → Prop
  | .idle => True
  | .headLoaded head => head = ring.head
  | .tailLoaded head tail => head = ring.head ∧ span head tail ≤ span head ring.tail
  | .cleared head => head = ring.head ∧ head ≠ ring.tail
  | .taken head _ => head = ring.head ∧ head ≠ ring.tail

structure Sound (system : System α capacity) : Prop where
  producer : system.producer.Relies system.ring
  consumer : system.consumer.Relies system.ring

/-- The values pushed and not yet popped. One that the consumer has taken out of its slot counts
until the head is published. -/
def System.unpopped (system : System α capacity) : List α :=
  match system.consumer with
  | .taken head value =>
    value :: CircularBuffer.contents system.ring.buffer.get (next head) system.ring.tail
  | _ => system.ring.contents

/-- What an outcome does to the queue. -/
def Queues (before after : List α) : Option (Outcome α) → Prop
  | some (.pushed value) => after = before ++ [value]
  | some (.popped value) => before = value :: after
  | _ => after = before

theorem sound_start [Inhabited α] : Sound (start : System α capacity) := ⟨trivial, trivial⟩

section

variable {ring : SpscRing α capacity}

theorem room_iff : next ring.tail = ring.head ↔ span ring.head ring.tail = capacity := by
  rw [CircularBuffer.span_full]
  omega

/-- A slot written at the tail is none of the consumer's. -/
theorem Consumer.Relies.write {consumer : Consumer α capacity} (relies : consumer.Relies ring)
    (buffer : Vector α (capacity + 1)) : consumer.Relies { ring with buffer := buffer } := by
  cases consumer <;> exact relies

theorem Consumer.Relies.publish {consumer : Consumer α capacity} (relies : consumer.Relies ring)
    (room : next ring.tail ≠ ring.head) : consumer.Relies { ring with tail := next ring.tail } := by
  have longer := CircularBuffer.span_next room
  have nonempty : ring.head ≠ next ring.tail := fun same => room same.symm
  cases consumer with
  | idle => trivial
  | headLoaded head => exact relies
  | tailLoaded head tail =>
    obtain ⟨rfl, later⟩ := relies
    refine ⟨rfl, ?_⟩
    change span ring.head tail ≤ span ring.head (next ring.tail)
    omega
  | _ =>
    obtain ⟨rfl, _⟩ := relies
    exact ⟨rfl, nonempty⟩

/-- The consumer moving a value out of the head's slot. -/
theorem Producer.Relies.take {producer : Producer α capacity} (relies : producer.Relies ring)
    (some : ring.head ≠ ring.tail) (value : α) :
    producer.Relies
      { ring with buffer := ring.buffer.set ring.head value ring.head.isLt } := by
  cases producer with
  | idle => trivial
  | written held tail =>
    obtain ⟨rfl, room, stored⟩ := relies
    refine ⟨rfl, room, ?_⟩
    rw [get_set, Function.update_of_ne (fun same => some same.symm)]
    exact stored
  | _ => exact relies

theorem Producer.Relies.publish {producer : Producer α capacity} (relies : producer.Relies ring)
    (some : ring.head ≠ ring.tail) : producer.Relies { ring with head := next ring.head } := by
  have shorter := CircularBuffer.span_advance some
  have room : next ring.tail ≠ next ring.head :=
    fun same => some (CircularBuffer.next_injective same).symm
  cases producer with
  | idle => trivial
  | tailLoaded _ tail => exact relies
  | headLoaded _ tail head =>
    obtain ⟨rfl, later⟩ := relies
    refine ⟨rfl, ?_⟩
    change span (next ring.head) ring.tail ≤ span head ring.tail
    omega
  | cleared _ tail =>
    obtain ⟨rfl, _⟩ := relies
    exact ⟨rfl, room⟩
  | written held tail =>
    obtain ⟨rfl, _, stored⟩ := relies
    exact ⟨rfl, room, stored⟩

end

theorem unpopped_write (ring : SpscRing α capacity) (value : α) (producer : Producer α capacity)
    (consumer : Consumer α capacity) :
    System.unpopped
        ⟨{ ring with buffer := ring.buffer.set ring.tail value ring.tail.isLt }, producer,
          consumer⟩ =
      System.unpopped ⟨ring, producer, consumer⟩ := by
  have kept : ∀ head, CircularBuffer.contents
      (ring.buffer.set ring.tail value ring.tail.isLt).get head ring.tail =
        CircularBuffer.contents ring.buffer.get head ring.tail := by
    intro head
    rw [get_set, CircularBuffer.contents_write]
  cases consumer with
  | taken head held => exact congrArg (held :: ·) (kept (next head))
  | _ => exact kept ring.head

theorem unpopped_publish {ring : SpscRing α capacity} (room : next ring.tail ≠ ring.head)
    (producer : Producer α capacity) {consumer : Consumer α capacity}
    (relies : consumer.Relies ring) :
    System.unpopped ⟨{ ring with tail := next ring.tail }, producer, consumer⟩ =
      System.unpopped ⟨ring, producer, consumer⟩ ++ [ring.buffer.get ring.tail] := by
  have longer := CircularBuffer.contents_publish ring.buffer.get room
  cases consumer with
  | taken head held =>
    obtain ⟨rfl, some⟩ := relies
    have apart : next ring.tail ≠ next ring.head :=
      fun same => some (CircularBuffer.next_injective same).symm
    exact congrArg (held :: ·) (CircularBuffer.contents_publish ring.buffer.get apart)
  | _ => exact longer

variable {system : System α capacity}

theorem Sound.unpopped_length (sound : Sound system) :
    system.unpopped.length = span system.ring.head system.ring.tail := by
  obtain ⟨ring, producer, consumer⟩ := system
  have relies : consumer.Relies ring := sound.consumer
  cases consumer with
  | taken head value =>
    obtain ⟨rfl, some⟩ := relies
    change (value :: CircularBuffer.contents ring.buffer.get (next ring.head) ring.tail).length =
      span ring.head ring.tail
    rw [List.length_cons, CircularBuffer.contents_length, CircularBuffer.span_advance some]
  | _ => exact CircularBuffer.contents_length _ _ _

theorem Sound.produce (sound : Sound system) (value : α) :
    Sound (SpscRing.produce system value).1 ∧
      Queues system.unpopped (SpscRing.produce system value).1.unpopped
        (SpscRing.produce system value).2 := by
  obtain ⟨ring, producer, consumer⟩ := system
  have own : producer.Relies ring := sound.producer
  have other : consumer.Relies ring := sound.consumer
  clear sound
  cases producer with
  | idle => exact ⟨⟨rfl, other⟩, rfl⟩
  | tailLoaded held tail => exact ⟨⟨⟨own, Nat.le_refl _⟩, other⟩, rfl⟩
  | headLoaded held tail head =>
    obtain ⟨rfl, closer⟩ := own
    rw [produce_compare]
    by_cases full : next ring.tail = head
    · rw [if_pos full]
      exact ⟨⟨trivial, other⟩, rfl⟩
    · rw [if_neg full]
      refine ⟨⟨⟨rfl, ?_⟩, other⟩, rfl⟩
      -- the head can only have come closer since it was loaded
      rw [CircularBuffer.span_full] at full
      have short := CircularBuffer.span_lt head ring.tail
      intro taken
      rw [CircularBuffer.span_full] at taken
      change span ring.head ring.tail + 1 = capacity + 1 at taken
      have closer : span ring.head ring.tail ≤ span head ring.tail := closer
      omega
  | cleared held tail =>
    obtain ⟨rfl, room⟩ := own
    refine ⟨⟨⟨rfl, room, ?_⟩, other.write _⟩, unpopped_write ring held _ consumer⟩
    change (ring.buffer.set ring.tail held ring.tail.isLt).get ring.tail = held
    rw [get_set, Function.update_self]
  | written held tail =>
    obtain ⟨rfl, room, stored⟩ := own
    have grown := unpopped_publish room Producer.idle other
    refine ⟨⟨trivial, other.publish room⟩, ?_⟩
    change System.unpopped _ = _ ++ [held]
    rw [← stored]
    exact grown

theorem Sound.consume (sound : Sound system) (moved : α → α) :
    Sound (SpscRing.consume moved system).1 ∧
      Queues system.unpopped (SpscRing.consume moved system).1.unpopped
        (SpscRing.consume moved system).2 := by
  obtain ⟨ring, producer, consumer⟩ := system
  have other : producer.Relies ring := sound.producer
  have own : consumer.Relies ring := sound.consumer
  clear sound
  cases consumer with
  | idle => exact ⟨⟨other, rfl⟩, rfl⟩
  | headLoaded head =>
    have mine : head = ring.head := own
    rw [mine]
    exact ⟨⟨other, rfl, Nat.le_refl _⟩, rfl⟩
  | tailLoaded head tail =>
    obtain ⟨rfl, farther⟩ := own
    rw [consume_compare]
    by_cases empty : ring.head = tail
    · rw [if_pos empty]
      exact ⟨⟨other, trivial⟩, rfl⟩
    · rw [if_neg empty]
      refine ⟨⟨other, rfl, ?_⟩, rfl⟩
      intro same
      have none : span ring.head ring.tail = 0 := CircularBuffer.span_eq_zero.mpr same
      have some := mt CircularBuffer.span_eq_zero.mp empty
      have farther : span ring.head tail ≤ span ring.head ring.tail := farther
      omega
  | cleared head =>
    obtain ⟨rfl, some⟩ := own
    refine ⟨⟨other.take some _, rfl, some⟩, ?_⟩
    change ring.buffer.get ring.head :: CircularBuffer.contents
      (ring.buffer.set ring.head (moved (ring.buffer.get ring.head)) ring.head.isLt).get
        (next ring.head) ring.tail = ring.contents
    rw [contents, get_set, CircularBuffer.contents_passed _ some,
      CircularBuffer.contents_pop ring.buffer.get some]
  | taken head held =>
    obtain ⟨rfl, some⟩ := own
    exact ⟨⟨other.publish some, trivial⟩, rfl⟩

theorem Sound.step (sound : Sound system) (moved : α → α) (move : Move α) :
    Sound (SpscRing.step moved system move).1 ∧
      Queues system.unpopped (SpscRing.step moved system move).1.unpopped
        (SpscRing.step moved system move).2 := by
  cases move with
  | produce value => exact sound.produce value
  | consume => exact sound.consume moved

end Invariant

section Runs

variable {α : Type} {capacity : Nat} (moved : α → α)

def pushes (outcomes : List (Option (Outcome α))) : List α :=
  outcomes.filterMap (fun outcome => match outcome with
    | some (.pushed value) => some value
    | _ => none)

def pops (outcomes : List (Option (Outcome α))) : List α :=
  outcomes.filterMap (fun outcome => match outcome with
    | some (.popped value) => some value
    | _ => none)

theorem queues_outcome {before after : List α} {outcome : Option (Outcome α)}
    (queues : Queues before after outcome) {outcomes : List (Option (Outcome α))} {rest : List α}
    (later : after ++ pushes outcomes = pops outcomes ++ rest) :
    before ++ pushes (outcome :: outcomes) = pops (outcome :: outcomes) ++ rest := by
  rcases outcome with _ | (value | _ | value | _)
  · have same : after = before := queues
    exact same ▸ later
  · have grown : after = before ++ [value] := queues
    rw [grown, List.append_assoc] at later
    exact later
  · have same : after = before := queues
    exact same ▸ later
  · have shrunk : before = value :: after := queues
    rw [shrunk]
    exact congrArg (value :: ·) later
  · have same : after = before := queues
    exact same ▸ later

/-- What was in the ring and what was pushed is what was popped and what is in it now. -/
theorem run_sound {system : System α capacity} (sound : Sound system) (moves : List (Move α)) :
    Sound (Machine.run (step moved) system moves).1 ∧
      system.unpopped ++ pushes (Machine.run (step moved) system moves).2 =
        pops (Machine.run (step moved) system moves).2 ++
          (Machine.run (step moved) system moves).1.unpopped := by
  induction moves generalizing system with
  | nil => exact ⟨sound, List.append_nil _⟩
  | cons move moves ih =>
    obtain ⟨kept, queues⟩ := sound.step moved move
    obtain ⟨final, later⟩ := ih kept
    rw [Machine.run_cons]
    exact ⟨final, queues_outcome queues later⟩

theorem run_snoc (system : System α capacity) (moves : List (Move α)) (move : Move α) :
    (Machine.run (step moved) system (moves ++ [move])).1 =
      (step moved (Machine.run (step moved) system moves).1 move).1 := by
  rw [Machine.run_append]
  rfl

theorem consume_producer (system : System α capacity) :
    (consume moved system).1.producer = system.producer := by
  obtain ⟨ring, producer, consumer⟩ := system
  cases consumer with
  | tailLoaded head tail =>
    rw [consume_compare]
    split <;> rfl
  | _ => rfl

theorem produce_consumer (system : System α capacity) (value : α) :
    (produce system value).1.consumer = system.consumer := by
  obtain ⟨ring, producer, consumer⟩ := system
  cases producer with
  | headLoaded held tail head =>
    rw [produce_compare]
    split <;> rfl
  | _ => rfl

/-- A party's place between two of its own steps: the other one alone has moved since the step
that led there. -/
theorem since_own_step {β : Type} (own : Move α → Bool) (place : System α capacity → β)
    (framed : ∀ system move, own move = false →
      place (step moved system move).1 = place system)
    {system : System α capacity} {there : β} (elsewhere : place system ≠ there)
    (moves : List (Move α)) (arrived : place (Machine.run (step moved) system moves).1 = there) :
    ∃ before move between, moves = before ++ move :: between ∧ own move = true ∧
      (∀ other ∈ between, own other = false) ∧
      place (step moved (Machine.run (step moved) system before).1 move).1 = there := by
  induction moves using List.reverseRecOn with
  | nil => exact absurd arrived elsewhere
  | append_singleton moves move ih =>
    rw [run_snoc] at arrived
    cases mine : own move with
    | true =>
      have none : ∀ other ∈ ([] : List (Move α)), own other = false := by
        intro other member
        cases member
      exact ⟨moves, move, [], rfl, mine, none, arrived⟩
    | false =>
      rw [framed _ _ mine] at arrived
      obtain ⟨before, last, between, rfl, acted, idle, led⟩ := ih arrived
      refine ⟨before, last, between ++ [move], by simp, acted, ?_, led⟩
      intro other member
      rcases List.mem_append.mp member with earlier | new
      · exact idle other earlier
      · rw [List.mem_singleton.mp new]
        exact mine

section Inversion

variable {moved} {system : System α capacity} {upcoming : α}

theorem produce_tailLoaded {value : α} {tail : Fin (capacity + 1)}
    (arrived : (produce system upcoming).1.producer = .tailLoaded value tail) :
    system.producer = .idle ∧ value = upcoming ∧
      (produce system upcoming).1.ring = system.ring := by
  obtain ⟨ring, producer, consumer⟩ := system
  cases producer with
  | idle =>
    cases arrived
    exact ⟨rfl, rfl, rfl⟩
  | headLoaded held tail head =>
    rw [produce_compare] at arrived
    split at arrived <;> cases arrived
  | _ => cases arrived

theorem produce_headLoaded {value : α} {tail head : Fin (capacity + 1)}
    (arrived : (produce system upcoming).1.producer = .headLoaded value tail head) :
    system.producer = .tailLoaded value tail ∧ head = system.ring.head ∧
      (produce system upcoming).1.ring = system.ring := by
  obtain ⟨ring, producer, consumer⟩ := system
  cases producer with
  | tailLoaded held tail =>
    cases arrived
    exact ⟨rfl, rfl, rfl⟩
  | headLoaded held tail head =>
    rw [produce_compare] at arrived
    split at arrived <;> cases arrived
  | _ => cases arrived

theorem produce_refused (refused : (produce system upcoming).2 = some .pushRefused) :
    ∃ value tail head, system.producer = .headLoaded value tail head ∧ next tail = head ∧
      (produce system upcoming).1.ring = system.ring := by
  obtain ⟨ring, producer, consumer⟩ := system
  cases producer with
  | headLoaded held tail head =>
    rw [produce_compare] at refused ⊢
    split at refused
    · rename_i full
      rw [if_pos full]
      exact ⟨held, tail, head, rfl, full, rfl⟩
    · cases refused
  | _ => cases refused

theorem consume_headLoaded {head : Fin (capacity + 1)}
    (arrived : (consume moved system).1.consumer = .headLoaded head) :
    system.consumer = .idle ∧ (consume moved system).1.ring = system.ring := by
  obtain ⟨ring, producer, consumer⟩ := system
  cases consumer with
  | idle => exact ⟨rfl, rfl⟩
  | tailLoaded head tail =>
    rw [consume_compare] at arrived
    split at arrived <;> cases arrived
  | _ => cases arrived

theorem consume_tailLoaded {head tail : Fin (capacity + 1)}
    (arrived : (consume moved system).1.consumer = .tailLoaded head tail) :
    system.consumer = .headLoaded head ∧ tail = system.ring.tail ∧
      (consume moved system).1.ring = system.ring := by
  obtain ⟨ring, producer, consumer⟩ := system
  cases consumer with
  | headLoaded head =>
    cases arrived
    exact ⟨rfl, rfl, rfl⟩
  | tailLoaded head tail =>
    rw [consume_compare] at arrived
    split at arrived <;> cases arrived
  | _ => cases arrived

theorem consume_refused (refused : (consume moved system).2 = some .popRefused) :
    ∃ head tail, system.consumer = .tailLoaded head tail ∧ head = tail ∧
      (consume moved system).1.ring = system.ring := by
  obtain ⟨ring, producer, consumer⟩ := system
  cases consumer with
  | tailLoaded head tail =>
    rw [consume_compare] at refused ⊢
    split at refused
    · rename_i empty
      rw [if_pos empty]
      exact ⟨head, tail, rfl, empty, rfl⟩
    · cases refused
  | _ => cases refused

end Inversion

section Refusals

variable [Inhabited α]

/-- The system after a run from the start, and what the calls of the run returned. -/
def after (capacity : Nat) (moves : List (Move α)) : System α capacity :=
  (Machine.run (step moved) (start : System α capacity) moves).1

def outcomes (capacity : Nat) (moves : List (Move α)) : List (Option (Outcome α)) :=
  (Machine.run (step moved) (start : System α capacity) moves).2

theorem after_sound (moves : List (Move α)) : Sound (after moved capacity moves) :=
  (run_sound moved sound_start moves).1

theorem after_queue (moves : List (Move α)) :
    pushes (outcomes moved capacity moves) =
      pops (outcomes moved capacity moves) ++ (after moved capacity moves).unpopped := by
  have balance := (run_sound moved (sound_start : Sound (start : System α capacity)) moves).2
  have none : (start : System α capacity).unpopped = [] := new_contents
  rw [none, List.nil_append] at balance
  exact balance

theorem after_length (moves : List (Move α)) :
    (pushes (outcomes moved capacity moves)).length =
      (pops (outcomes moved capacity moves)).length +
        span (after moved capacity moves).ring.head (after moved capacity moves).ring.tail := by
  rw [after_queue, List.length_append, (after_sound moved moves).unpopped_length]

theorem producer_since {there : Producer α capacity} (elsewhere : Producer.idle ≠ there)
    {moves : List (Move α)} (arrived : (after moved capacity moves).producer = there) :
    ∃ before value between, moves = before ++ .produce value :: between ∧
      (∀ move ∈ between, move.isProduce = false) ∧
      (produce (after moved capacity before) value).1.producer = there := by
  have framed : ∀ (system : System α capacity) (move : Move α), move.isProduce = false →
      (step moved system move).1.producer = system.producer := by
    intro system move other
    cases move with
    | produce value => cases other
    | consume => exact consume_producer moved system
  obtain ⟨before, move, between, parts, mine, waits, led⟩ :=
    since_own_step moved Move.isProduce System.producer framed elsewhere moves arrived
  cases move with
  | produce value => exact ⟨before, value, between, parts, waits, led⟩
  | consume => cases mine

theorem consumer_since {there : Consumer α capacity} (elsewhere : Consumer.idle ≠ there)
    {moves : List (Move α)} (arrived : (after moved capacity moves).consumer = there) :
    ∃ before between, moves = before ++ .consume :: between ∧
      (∀ move ∈ between, move.isProduce = true) ∧
      (consume moved (after moved capacity before)).1.consumer = there := by
  have framed : ∀ (system : System α capacity) (move : Move α), (!move.isProduce) = false →
      (step moved system move).1.consumer = system.consumer := by
    intro system move other
    cases move with
    | produce value => exact produce_consumer system value
    | consume => cases other
  obtain ⟨before, move, between, parts, mine, waits, led⟩ :=
    since_own_step moved (fun move => !move.isProduce) System.consumer framed elsewhere moves
      arrived
  cases move with
  | produce value => cases mine
  | consume => exact ⟨before, between, parts, fun other member => by simpa using waits other member,
      led⟩

/-- The call behind a push that is refused: it was begun, loaded the tail, loaded the head and
compared them, with only the consumer moving in between; it never touched the ring, and when it
loaded the head, `capacity` values were unpopped. -/
def PushWaited (capacity : Nat) (moves : List (Move α)) (upcoming : α) : Prop :=
  let system : List (Move α) → System α capacity := after moved capacity
  ∃ before waiting between value again,
    moves = before ++ .produce value :: waiting ++ .produce again :: between ∧
    (∀ move ∈ waiting ++ between, move.isProduce = false) ∧
    (system before).producer = .idle ∧
    let loading := before ++ .produce value :: waiting
    (pushes (outcomes moved capacity loading)).length =
      (pops (outcomes moved capacity loading)).length + capacity ∧
    (produce (system before) value).1.ring = (system before).ring ∧
    (produce (system loading) again).1.ring = (system loading).ring ∧
    (produce (system moves) upcoming).1.ring = (system moves).ring

theorem push_refused {moves : List (Move α)} {upcoming : α}
    (refused : (produce (after moved capacity moves) upcoming).2 = some .pushRefused) :
    PushWaited moved capacity moves upcoming := by
  obtain ⟨value, tail, head, compared, full, kept⟩ := produce_refused refused
  obtain ⟨loading, again, between, rfl, quiet, loaded⟩ :=
    producer_since moved (by nofun) compared
  obtain ⟨begun, seen, untouched⟩ := produce_headLoaded loaded
  obtain ⟨before, first, waiting, rfl, silent, opened⟩ :=
    producer_since moved (by nofun) begun
  obtain ⟨idle, same, intact⟩ := produce_tailLoaded opened
  subst same
  refine ⟨before, waiting, between, value, again, rfl,
    List.forall_mem_append.mpr ⟨silent, quiet⟩, idle, ?_, intact, untouched, kept⟩
  have own := (@after_sound α capacity moved _ (before ++ .produce value :: waiting)).producer
  rw [begun] at own
  have mine : tail = (after moved capacity (before ++ .produce value :: waiting)).ring.tail := own
  rw [mine, seen, room_iff] at full
  rw [after_length, full]

/-- Likewise a pop that is refused loaded the tail when no pushed value was left to pop. -/
def PopWaited (capacity : Nat) (moves : List (Move α)) : Prop :=
  let system : List (Move α) → System α capacity := after moved capacity
  ∃ before waiting between,
    moves = before ++ .consume :: waiting ++ .consume :: between ∧
    (∀ move ∈ waiting ++ between, move.isProduce = true) ∧
    (system before).consumer = .idle ∧
    let loading := before ++ .consume :: waiting
    pushes (outcomes moved capacity loading) = pops (outcomes moved capacity loading) ∧
    (consume moved (system before)).1.ring = (system before).ring ∧
    (consume moved (system loading)).1.ring = (system loading).ring ∧
    (consume moved (system moves)).1.ring = (system moves).ring

theorem pop_refused {moves : List (Move α)}
    (refused : (consume moved (after moved capacity moves)).2 = some .popRefused) :
    PopWaited moved capacity moves := by
  obtain ⟨head, tail, compared, empty, kept⟩ := consume_refused refused
  obtain ⟨loading, between, rfl, quiet, loaded⟩ :=
    consumer_since moved (by nofun) compared
  obtain ⟨begun, seen, untouched⟩ := consume_tailLoaded loaded
  obtain ⟨before, waiting, rfl, silent, opened⟩ :=
    consumer_since moved (by nofun) begun
  obtain ⟨idle, intact⟩ := consume_headLoaded opened
  refine ⟨before, waiting, between, rfl, List.forall_mem_append.mpr ⟨silent, quiet⟩, idle, ?_,
    intact, untouched, kept⟩
  have sound := @after_sound α capacity moved _ (before ++ .consume :: waiting)
  have own := sound.consumer
  rw [begun] at own
  have mine : head = (after moved capacity (before ++ .consume :: waiting)).ring.head := own
  have none : (after moved capacity (before ++ .consume :: waiting)).unpopped = [] := by
    apply List.eq_nil_of_length_eq_zero
    rw [sound.unpopped_length, CircularBuffer.span_eq_zero, ← mine, empty, seen]
  rw [after_queue, none, List.append_nil]

/-- The slots whose values have been published and not yet popped. -/
def unpoppedSlots (ring : SpscRing α capacity) : List (Fin (capacity + 1)) :=
  (List.range (span ring.head ring.tail)).map (CircularBuffer.ahead ring.head)

/-- Whatever the interleaving: what is popped is what was pushed, in order and none skipped; at
most `capacity` values wait; the producer writes no slot that holds a waiting value, and the
consumer reads none but those; a call that fails had good reason to and changed nothing; and one
that nothing interrupts is the call of the sequential ring. -/
theorem ring_refines_queue (moves : List (Move α)) :
    let system := after moved capacity moves
    let returned := outcomes moved capacity moves
    pops returned <+: pushes returned ∧
    (pushes returned).length ≤ (pops returned).length + capacity ∧
    (∀ value slot, system.producer = .cleared value slot → slot ∉ unpoppedSlots system.ring) ∧
    (∀ slot, system.consumer = .cleared slot → slot ∈ unpoppedSlots system.ring) ∧
    (∀ upcoming, (produce system upcoming).2 = some .pushRefused →
      PushWaited moved capacity moves upcoming) ∧
    ((consume moved system).2 = some .popRefused → PopWaited moved capacity moves) ∧
    system.ring.PushAlone ∧ system.ring.PopAlone := by
  intro system returned
  have sound : Sound system := after_sound moved moves
  have queue : pushes returned = pops returned ++ system.unpopped := after_queue moved moves
  refine ⟨⟨system.unpopped, queue.symm⟩, ?_, ?_, ?_, fun _ => push_refused moved,
    pop_refused moved, produce_alone system.ring, consume_alone system.ring⟩
  · have short := CircularBuffer.span_lt system.ring.head system.ring.tail
    have counted : (pushes returned).length = (pops returned).length +
        span system.ring.head system.ring.tail := after_length moved moves
    omega
  · intro value slot place member
    have own := sound.producer
    rw [place] at own
    obtain ⟨distance, within, same⟩ := List.mem_map.mp member
    exact CircularBuffer.ahead_ne (List.mem_range.mp within) (same.trans own.1)
  · intro slot place
    have own := sound.consumer
    rw [place] at own
    obtain ⟨mine, some⟩ := own
    apply List.mem_map.mpr
    refine ⟨0, List.mem_range.mpr ?_, by rw [CircularBuffer.ahead_zero, mine]⟩
    rw [mine] at some
    exact Nat.pos_of_ne_zero (mt CircularBuffer.span_eq_zero.mp some)

end Refusals

end Runs

end Qsl.SpscRing
