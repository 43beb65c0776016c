import Qsl.CircularBuffer

namespace Qsl

/-- A ring for one producer and one consumer. One spare slot tells full from empty. -/
structure SpscRing (α : Type) (capacity : Nat) where
  buffer : Vector α (capacity + 1)
  head : Fin (capacity + 1)
  tail : Fin (capacity + 1)

namespace SpscRing

open CircularBuffer (next)

variable {α : Type} {capacity : Nat}

def new [Inhabited α] : SpscRing α capacity := ⟨Vector.replicate (capacity + 1) default, 0, 0⟩

/-- The producer's call; a full ring stays as it is. -/
def tryPush (ring : SpscRing α capacity) (value : α) : SpscRing α capacity × Bool :=
  let n := next ring.tail
  if n = ring.head then (ring, false)
  else ({ ring with buffer := ring.buffer.set ring.tail value ring.tail.isLt, tail := n }, true)

/-- The consumer's call; what was read stays behind in its slot until that is written again. -/
def tryPop (ring : SpscRing α capacity) : SpscRing α capacity × Option α :=
  if ring.head = ring.tail then (ring, none)
  else ({ ring with head := next ring.head }, some (ring.buffer.get ring.head))

/-- The values pushed and not yet popped. -/
def contents (ring : SpscRing α capacity) : List α :=
  CircularBuffer.contents ring.buffer.get ring.head ring.tail

@[simp] theorem new_contents [Inhabited α] : (new : SpscRing α capacity).contents = [] :=
  (CircularBuffer.contents_eq_nil _).mpr rfl

theorem get_set (buffer : Vector α (capacity + 1)) (slot : Fin (capacity + 1)) (value : α) :
    (buffer.set slot value slot.isLt).get = Function.update buffer.get slot value := by
  funext other
  show (buffer.set slot.val value slot.isLt)[other.val] = _
  rw [Vector.getElem_set]
  by_cases same : other = slot
  · rw [same, Function.update_self, if_pos rfl]
  · rw [Function.update_of_ne same, if_neg (fun equal => same (Fin.ext equal.symm))]
    rfl

/-- The ring is a bounded queue: a push fails exactly if it is full. -/
theorem tryPush_cases (ring : SpscRing α capacity) (value : α) :
    (ring.contents.length = capacity ∧ ring.tryPush value = (ring, false)) ∨
      ∃ after, ring.tryPush value = (after, true) ∧ after.contents = ring.contents ++ [value] := by
  have full : next ring.tail = ring.head ↔ ring.contents.length + 1 = capacity + 1 :=
    CircularBuffer.contents_full _
  unfold tryPush
  by_cases taken : next ring.tail = ring.head
  · exact Or.inl ⟨Nat.succ.inj (full.mp taken), if_pos taken⟩
  · refine Or.inr ⟨_, if_neg taken, ?_⟩
    rw [contents, get_set]
    exact CircularBuffer.contents_push _ taken value

/-- A pop fails exactly if the queue is empty, and takes the first value otherwise. -/
theorem tryPop_cases (ring : SpscRing α capacity) :
    (ring.contents = [] ∧ ring.tryPop = (ring, none)) ∨
      ∃ after value, ring.tryPop = (after, some value) ∧
        ring.contents = value :: after.contents := by
  unfold tryPop
  by_cases none : ring.head = ring.tail
  · exact Or.inl ⟨(CircularBuffer.contents_eq_nil _).mpr none, if_pos none⟩
  · exact Or.inr ⟨_, _, if_neg none, CircularBuffer.contents_pop _ none⟩

end SpscRing

end Qsl
