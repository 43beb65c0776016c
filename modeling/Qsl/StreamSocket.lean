import Mathlib.Tactic.Common

/- The kernel's end of a nonblocking stream socket. What the peer does and how far a call gets is
a script that the kernel follows, one entry for each call. -/
namespace StreamSocket

open List

variable {β : Type}

/-- What was read and what waits to be read, whether the peer has finished sending, what a call
could send, and what the calls have sent. -/
structure Socket (β : Type) where
  taken : List β := []
  queue : List β := []
  finished : Bool := false
  room : Nat := 0
  accepted : List β := []
  deriving DecidableEq, Repr

/-- Before the call the peer may send, finish, and make room. Then a signal may interrupt the
call, or it fails; if not, it moves some bytes, one at least. -/
structure Turn (β : Type) where
  arrives : List β := []
  finishes : Bool := false
  frees : Nat := 0
  interrupted : Bool := false
  fails : Bool := false
  atMost : Nat := 65536
  deriving DecidableEq, Repr

structure Kernel (β : Type) where
  socket : Socket β
  script : List (Turn β) := []
  deriving DecidableEq, Repr

/-- A system call succeeds or sets `errno`. -/
inductive Answer (α : Type) where
  | ok (value : α)
  | interrupted
  | wouldBlock
  | failed
  deriving DecidableEq, Repr

namespace Socket

/-- All that the peer has sent. -/
def arrived (socket : Socket β) : List β := socket.taken ++ socket.queue

/-- What happens before a call; after its half-close the peer sends no more. -/
def advance (socket : Socket β) (turn : Turn β) : Socket β :=
  if socket.finished then { socket with room := socket.room + turn.frees }
  else
    { socket with
      queue := socket.queue ++ turn.arrives
      finished := turn.finishes
      room := socket.room + turn.frees }

/-- A call that asks for some bytes of the queue. -/
def read (socket : Socket β) (size atMost : Nat) : Answer (List β) × Socket β :=
  if socket.queue.isEmpty then
    if socket.finished then (.ok [], socket) else (.wouldBlock, socket)
  else
    let bytes := socket.queue.take (min size (max 1 atMost))
    (.ok bytes,
      { socket with taken := socket.taken ++ bytes, queue := socket.queue.drop bytes.length })

/-- A call that offers some bytes. -/
def send (socket : Socket β) (bytes : List β) (atMost : Nat) : Answer Nat × Socket β :=
  if socket.room = 0 then (.wouldBlock, socket)
  else
    let n := min bytes.length (min socket.room (max 1 atMost))
    (.ok n, { socket with room := socket.room - n, accepted := socket.accepted ++ bytes.take n })

end Socket

namespace Kernel

/-- The entry of the script that the next call follows. -/
def turn (kernel : Kernel β) : Turn β := kernel.script.headD {}

/-- The socket as the next call finds it. -/
def ready (kernel : Kernel β) : Socket β := kernel.socket.advance kernel.turn

def read (kernel : Kernel β) (size : Nat) : Answer (List β) × Kernel β :=
  if kernel.turn.interrupted then (.interrupted, ⟨kernel.ready, kernel.script.tail⟩)
  else if kernel.turn.fails then (.failed, ⟨kernel.ready, kernel.script.tail⟩)
  else
    let (answer, socket) := kernel.ready.read size kernel.turn.atMost
    (answer, ⟨socket, kernel.script.tail⟩)

def send (kernel : Kernel β) (bytes : List β) : Answer Nat × Kernel β :=
  if kernel.turn.interrupted then (.interrupted, ⟨kernel.ready, kernel.script.tail⟩)
  else if kernel.turn.fails then (.failed, ⟨kernel.ready, kernel.script.tail⟩)
  else
    let (answer, socket) := kernel.ready.send bytes kernel.turn.atMost
    (answer, ⟨socket, kernel.script.tail⟩)

/-- The entries of the script, and what its calls could still read. -/
def work (kernel : Kernel β) : Nat :=
  kernel.script.length + kernel.socket.queue.length + (kernel.script.flatMap Turn.arrives).length

/-- No call fails. -/
def Works (kernel : Kernel β) : Prop := ∀ turn ∈ kernel.script, turn.fails = false

end Kernel

namespace Socket

@[simp] theorem advance_taken (socket : Socket β) (turn : Turn β) :
    (socket.advance turn).taken = socket.taken := by
  unfold advance
  split <;> rfl

@[simp] theorem advance_accepted (socket : Socket β) (turn : Turn β) :
    (socket.advance turn).accepted = socket.accepted := by
  unfold advance
  split <;> rfl

/-- Once the peer has finished, nothing more arrives, and the queue only gets shorter. -/
def Settled (before after : Socket β) : Prop :=
  before.finished = true →
    after.finished = true ∧ after.arrived = before.arrived ∧ after.queue <:+ before.queue

theorem Settled.refl (socket : Socket β) : socket.Settled socket :=
  fun finished => ⟨finished, rfl, suffix_rfl⟩

theorem Settled.trans {first second third : Socket β} (early : first.Settled second)
    (late : second.Settled third) : first.Settled third := by
  intro finished
  obtain ⟨still, same, shorter⟩ := early finished
  obtain ⟨last, again, shortest⟩ := late still
  exact ⟨last, again.trans same, shortest.trans shorter⟩

theorem advance_settled (socket : Socket β) (turn : Turn β) :
    socket.Settled (socket.advance turn) := by
  intro finished
  rw [advance, if_pos finished]
  exact ⟨finished, rfl, suffix_rfl⟩

theorem advance_finished {socket : Socket β} (finished : socket.finished = true) (turn : Turn β) :
    (socket.advance turn).finished = true ∧ (socket.advance turn).queue = socket.queue := by
  rw [advance, if_pos finished]
  exact ⟨finished, rfl⟩

end Socket

namespace Kernel

variable (kernel : Kernel β)

@[simp] theorem ready_taken : kernel.ready.taken = kernel.socket.taken :=
  kernel.socket.advance_taken kernel.turn

@[simp] theorem ready_accepted : kernel.ready.accepted = kernel.socket.accepted :=
  kernel.socket.advance_accepted kernel.turn

theorem ready_settled : kernel.socket.Settled kernel.ready :=
  kernel.socket.advance_settled kernel.turn

/-- Only an entry of the script interrupts a call. -/
theorem script_ne_nil (interrupted : kernel.turn.interrupted = true) :
    kernel.script ≠ [] := by
  intro none
  rw [turn, none] at interrupted
  cases interrupted

theorem Works.turn {kernel : Kernel β} (works : kernel.Works) : kernel.turn.fails = false := by
  unfold Kernel.turn
  cases script : kernel.script with
  | nil => rfl
  | cons entry entries => exact works entry (by rw [script]; exact mem_cons_self)

theorem Works.tail {kernel : Kernel β} (works : kernel.Works) {socket : Socket β} :
    (⟨socket, kernel.script.tail⟩ : Kernel β).Works :=
  fun turn member => works turn (mem_of_mem_tail member)

/-- The ways a read goes. -/
theorem read_cases {size : Nat} (positive : 0 < size) :
    kernel.turn.interrupted = true ∧
        kernel.read size = (.interrupted, ⟨kernel.ready, kernel.script.tail⟩) ∨
      kernel.turn.fails = true ∧
        kernel.read size = (.failed, ⟨kernel.ready, kernel.script.tail⟩) ∨
      kernel.ready.queue = [] ∧ kernel.ready.finished = true ∧
        kernel.read size = (.ok [], ⟨kernel.ready, kernel.script.tail⟩) ∨
      kernel.ready.queue = [] ∧
        kernel.read size = (.wouldBlock, ⟨kernel.ready, kernel.script.tail⟩) ∨
      ∃ bytes later, bytes ≠ [] ∧ kernel.ready.queue = bytes ++ later ∧
        kernel.read size =
          (.ok bytes,
            ⟨{ kernel.ready with taken := kernel.ready.taken ++ bytes, queue := later },
              kernel.script.tail⟩) := by
  unfold read
  cases interrupted : kernel.turn.interrupted with
  | true => exact Or.inl ⟨rfl, if_pos rfl⟩
  | false =>
    rw [if_neg Bool.false_ne_true]
    cases kernel.turn.fails with
    | true => exact Or.inr (Or.inl ⟨rfl, if_pos rfl⟩)
    | false =>
      rw [if_neg Bool.false_ne_true, Socket.read]
      cases queue : kernel.ready.queue with
      | nil =>
        cases finished : kernel.ready.finished with
        | true => exact Or.inr (Or.inr (Or.inl ⟨rfl, rfl, by simp⟩))
        | false => exact Or.inr (Or.inr (Or.inr (Or.inl ⟨rfl, by simp⟩)))
      | cons byte bytes =>
        have split := prefix_iff_eq_append.mp
          ( take_prefix (min size (max 1 kernel.turn.atMost)) (byte :: bytes))
        refine Or.inr (Or.inr (Or.inr (Or.inr ⟨_, _, ?_, split.symm, rfl⟩)))
        rw [Ne, take_eq_nil_iff]
        simp only [reduceCtorEq, or_false]
        omega

/-- The ways a send of some bytes goes. -/
theorem send_cases {bytes : List β} (some : bytes ≠ []) :
    kernel.turn.interrupted = true ∧
        kernel.send bytes = (.interrupted, ⟨kernel.ready, kernel.script.tail⟩) ∨
      kernel.turn.fails = true ∧
        kernel.send bytes = (.failed, ⟨kernel.ready, kernel.script.tail⟩) ∨
      kernel.send bytes = (.wouldBlock, ⟨kernel.ready, kernel.script.tail⟩) ∨
      ∃ n room, 0 < n ∧ n ≤ bytes.length ∧
        kernel.send bytes =
          (.ok n,
            ⟨{ kernel.ready with room := room, accepted := kernel.ready.accepted ++ bytes.take n },
              kernel.script.tail⟩) := by
  unfold send
  cases interrupted : kernel.turn.interrupted with
  | true => exact Or.inl ⟨rfl, if_pos rfl⟩
  | false =>
    have positive : 0 < bytes.length := length_pos_iff.mpr some
    rw [if_neg Bool.false_ne_true]
    cases kernel.turn.fails with
    | true => exact Or.inr (Or.inl ⟨rfl, if_pos rfl⟩)
    | false =>
      rw [if_neg Bool.false_ne_true, Socket.send]
      by_cases full : kernel.ready.room = 0
      · exact Or.inr (Or.inr (Or.inl (by rw [if_pos full])))
      · refine Or.inr (Or.inr (Or.inr ⟨_, _, ?_, Nat.min_le_left _ _, by rw [if_neg full]⟩))
        omega

/-- What arrives was counted, and every entry counts. -/
theorem work_ready :
    (⟨kernel.ready, kernel.script.tail⟩ : Kernel β).work ≤ kernel.work ∧
      (kernel.script ≠ [] →
        (⟨kernel.ready, kernel.script.tail⟩ : Kernel β).work < kernel.work) := by
  unfold work ready turn Socket.advance
  cases kernel.script with
  | nil =>
    refine ⟨?_, fun some => absurd rfl some⟩
    split <;> simp
  | cons entry script =>
    simp only [headD_cons, tail_cons, length_cons, flatMap_cons,
      length_append]
    split
    · simp only
      omega
    · simp only [length_append]
      omega

end Kernel

end StreamSocket
