import Mathlib.Data.List.Induction
import Mathlib.Data.List.Nodup
import Mathlib.Logic.Function.Basic
import Mathlib.Tactic.Common

/- Doubly linked queues threaded through the cells of a shared heap. A cell knows its
neighbours by address; the queue itself is its two ends and its size. -/
namespace LinkedQueue

open List

structure Node (α : Type) where
  value : α
  prev : Option Nat
  next : Option Nat
  deriving DecidableEq, Repr

structure Ends where
  head : Option Nat
  tail : Option Nat
  size : Nat
  deriving DecidableEq, Repr

variable {α : Type}

abbrev Heap (α : Type) := Nat → Option (Node α)

/-- Write through a pointer that may be null. -/
def write (heap : Heap α) (pointer : Option Nat) (f : Node α → Node α) : Heap α :=
  match pointer with
  | none => heap
  | some address => Function.update heap address ((heap address).map f)

def Ends.empty : Ends := ⟨none, none, 0⟩

/-- Link a cell behind the tail. -/
def append (heap : Heap α) (ends : Ends) (address : Nat) : Heap α × Ends :=
  let placed := write heap (some address) (fun node => { node with prev := ends.tail, next := none })
  (write placed ends.tail (fun node => { node with next := some address }),
    ⟨if ends.tail = none then some address else ends.head, some address, ends.size + 1⟩)

/-- Join the neighbours of a cell, wherever in the queue it is. -/
def unlink (heap : Heap α) (ends : Ends) (address : Nat) : Heap α × Ends :=
  match heap address with
  | none => (heap, ends)
  | some cell =>
    let joined := write heap cell.prev (fun node => { node with next := cell.next })
    (write joined cell.next (fun node => { node with prev := cell.prev }),
      ⟨if cell.prev = none then cell.next else ends.head,
        if cell.next = none then cell.prev else ends.tail, ends.size - 1⟩)

/-- The cells met by following `next`, at most `bound` of them. -/
def walk (heap : Heap α) : Nat → Option Nat → List (Nat × α)
  | 0, _ => []
  | _ + 1, none => []
  | bound + 1, some address =>
    match heap address with
    | none => []
    | some node => (address, node.value) :: walk heap bound node.next

/-- The address a pointer to the cells holds, `after` when there are none. -/
def first (cells : List (Nat × α)) (after : Option Nat) : Option Nat :=
  (cells.head?.map Prod.fst).or after

def last (before : Option Nat) (cells : List (Nat × α)) : Option Nat :=
  (cells.getLast?.map Prod.fst).or before

@[simp] theorem first_nil (after : Option Nat) : first ([] : List (Nat × α)) after = after := rfl

@[simp] theorem first_cons (cell : Nat × α) (cells : List (Nat × α)) (after : Option Nat) :
    first (cell :: cells) after = some cell.1 := rfl

@[simp] theorem last_nil (before : Option Nat) : last before ([] : List (Nat × α)) = before := rfl

@[simp] theorem last_concat (before : Option Nat) (cells : List (Nat × α)) (cell : Nat × α) :
    last before (cells ++ [cell]) = some cell.1 := by
  simp [last]

theorem first_append (cells others : List (Nat × α)) (after : Option Nat) :
    first (cells ++ others) after = first cells (first others after) := by
  cases cells <;> rfl

theorem last_append (before : Option Nat) (cells others : List (Nat × α)) :
    last before (cells ++ others) = last (last before cells) others := by
  cases others using List.reverseRecOn with
  | nil => rw [append_nil, last_nil]
  | append_singleton others cell => rw [← append_assoc, last_concat, last_concat]

theorem last_cons (before : Option Nat) (cell : Nat × α) (cells : List (Nat × α)) :
    last before (cell :: cells) = last (some cell.1) cells :=
  last_append before [cell] cells

/-- The cells are linked both ways, from a cell `before` them to a cell `after` them. -/
def Chain (heap : Heap α) : Option Nat → List (Nat × α) → Option Nat → Prop
  | _, [], _ => True
  | before, cell :: cells, after =>
    heap cell.1 = some ⟨cell.2, before, first cells after⟩ ∧
      Chain heap (some cell.1) cells after

section Chain

variable {heap heap' : Heap α} {before after : Option Nat} {cells others : List (Nat × α)}

theorem chain_append :
    Chain heap before (cells ++ others) after ↔
      Chain heap before cells (first others after) ∧
        Chain heap (last before cells) others after := by
  induction cells generalizing before with
  | nil => simp [Chain]
  | cons cell cells ih =>
    rw [cons_append, Chain, Chain, ih, first_append, last_cons, and_assoc]

/-- A chain depends on its own cells only. -/
theorem Chain.congr (chain : Chain heap before cells after)
    (same : ∀ cell ∈ cells, heap' cell.1 = heap cell.1) : Chain heap' before cells after := by
  induction cells generalizing before with
  | nil => trivial
  | cons cell cells ih =>
    refine ⟨(same cell mem_cons_self).trans chain.1, ih chain.2 ?_⟩
    intro other member
    exact same other (mem_cons_of_mem _ member)

theorem write_apart {pointer : Option Nat} {address : Nat} (f : Node α → Node α)
    (apart : pointer ≠ some address) : write heap pointer f address = heap address := by
  cases pointer with
  | none => rfl
  | some target =>
    have differ : address ≠ target := fun same => apart (congrArg some same.symm)
    exact Function.update_of_ne differ _ _

theorem write_at (address : Nat) (f : Node α → Node α) :
    write heap (some address) f address = (heap address).map f := Function.update_self _ _ _

theorem last_mem {address : Nat} (found : last none cells = some address) :
    address ∈ cells.map Prod.fst := by
  cases cells using List.reverseRecOn with
  | nil => cases found
  | append_singleton cells cell =>
    rw [last_concat] at found
    cases found
    exact mem_map_of_mem (mem_append_right _ mem_cons_self)

theorem first_mem {address : Nat} (found : first cells none = some address) :
    address ∈ cells.map Prod.fst := by
  cases cells with
  | nil => cases found
  | cons cell cells =>
    cases found
    exact mem_cons_self

/-- Redirecting the last cell's `next`. -/
theorem Chain.setNext (chain : Chain heap before cells after)
    (distinct : (cells.map Prod.fst).Nodup) (after' : Option Nat) :
    Chain (write heap (last none cells) (fun node => { node with next := after' }))
      before cells after' := by
  cases cells using List.reverseRecOn with
  | nil => trivial
  | append_singleton cells cell =>
    obtain ⟨front, back⟩ := chain_append.mp chain
    rw [map_append, nodup_append] at distinct
    rw [last_concat]
    refine chain_append.mpr ⟨front.congr ?_, ?_, trivial⟩
    · intro other member
      apply write_apart
      intro same
      exact distinct.2.2 other.1 (mem_map_of_mem member) cell.1 mem_cons_self
        (Option.some.inj same).symm
    · rw [write_at, back.1]
      rfl

/-- Redirecting the first cell's `prev`. -/
theorem Chain.setPrev (chain : Chain heap before cells after)
    (distinct : (cells.map Prod.fst).Nodup) (before' : Option Nat) :
    Chain (write heap (first cells none) (fun node => { node with prev := before' }))
      before' cells after := by
  cases cells with
  | nil => trivial
  | cons cell cells =>
    rw [first_cons]
    refine ⟨?_, chain.2.congr ?_⟩
    · rw [write_at, chain.1]
      rfl
    · intro other member
      apply write_apart
      intro same
      exact (nodup_cons.mp distinct).1
        (Option.some.inj same ▸ mem_map_of_mem member)

theorem Chain.walk_eq (chain : Chain heap before cells none) {bound : Nat}
    (enough : cells.length ≤ bound) : walk heap bound (first cells none) = cells := by
  induction cells generalizing before bound with
  | nil => cases bound <;> rfl
  | cons cell cells ih =>
    obtain ⟨fewer, rfl⟩ : ∃ fewer, bound = fewer + 1 :=
      ⟨bound - 1, by rw [length_cons] at enough; omega⟩
    rw [first_cons, walk, chain.1]
    simp only [ih chain.2 (by simpa using enough)]

end Chain

/-- The queue with the given ends is made of the given cells. -/
structure Holds (heap : Heap α) (ends : Ends) (cells : List (Nat × α)) : Prop where
  head : ends.head = first cells none
  tail : ends.tail = last none cells
  size : ends.size = cells.length
  chain : Chain heap none cells none
  distinct : (cells.map Prod.fst).Nodup

theorem holds_empty (heap : Heap α) : Holds heap .empty [] :=
  ⟨rfl, rfl, rfl, trivial, nodup_nil⟩

section Holds

variable {heap heap' : Heap α} {ends : Ends} {cells front back : List (Nat × α)}

section

variable (holds : Holds heap ends cells)

include holds

theorem Holds.congr (same : ∀ cell ∈ cells, heap' cell.1 = heap cell.1) : Holds heap' ends cells :=
  { holds with chain := holds.chain.congr same }

theorem Holds.walk_eq {bound : Nat} (enough : cells.length ≤ bound) :
    walk heap bound ends.head = cells := by
  rw [holds.head]
  exact holds.chain.walk_eq enough

theorem Holds.append {address : Nat} {node : Node α} (placed : heap address = some node)
    (fresh : address ∉ cells.map Prod.fst) :
    Holds (append heap ends address).1 (append heap ends address).2
      (cells ++ [(address, node.value)]) := by
  have apart : ∀ cell ∈ cells, (some address : Option Nat) ≠ some cell.1 := by
    intro cell member same
    exact fresh (Option.some.inj same ▸ mem_map_of_mem member)
  have untouched : last none cells ≠ some address := fun found => fresh (last_mem found)
  have kept := holds.chain.congr (fun cell member => write_apart
    (fun node : Node α => { node with prev := last none cells, next := none }) (apart cell member))
  refine ⟨?_, ?_, ?_, ?_, ?_⟩
  · rw [LinkedQueue.append, first_append, holds.tail, holds.head]
    cases cells using List.reverseRecOn with
    | nil => rfl
    | append_singleton cells cell =>
      rw [last_concat, first_append, first_append]
      cases cells <;> rfl
  · rw [LinkedQueue.append, last_concat]
  · rw [LinkedQueue.append, length_append, holds.size]
    rfl
  · rw [LinkedQueue.append]
    refine chain_append.mpr ⟨?_, ?_, trivial⟩
    · simp only [holds.tail]
      exact kept.setNext holds.distinct (some address)
    · simp only
      rw [holds.tail, write_apart _ untouched, write_at, placed]
      rfl
  · rw [map_append, nodup_append]
    refine ⟨holds.distinct, nodup_singleton _, ?_⟩
    intro other member new inNew same
    rw [same, mem_singleton.mp inNew] at member
    exact fresh member

/-- Appending writes to the new cell and to the queue's own cells only. -/
theorem Holds.append_frame {address other : Nat} (new : other ≠ address)
    (outside : other ∉ cells.map Prod.fst) :
    (LinkedQueue.append heap ends address).1 other = heap other := by
  have tail : last none cells ≠ some other := fun found => outside (last_mem found)
  simp only [LinkedQueue.append, holds.tail]
  rw [write_apart _ tail]
  exact write_apart _ (fun same => new (Option.some.inj same).symm)

end

variable {address : Nat} {value : α}

section

variable (holds : Holds heap ends (front ++ (address, value) :: back))

include holds

theorem Holds.cell : heap address = some ⟨value, last none front, first back none⟩ :=
  (chain_append.mp holds.chain).2.1

theorem Holds.apart :
    address ∉ (front ++ back).map Prod.fst ∧ (front.map Prod.fst).Nodup ∧
      (back.map Prod.fst).Nodup ∧ ∀ a ∈ front.map Prod.fst, a ∉ back.map Prod.fst := by
  have distinct := holds.distinct
  rw [map_append, map_cons, nodup_append] at distinct
  obtain ⟨inFront, tail, across⟩ := distinct
  obtain ⟨notBack, inBack⟩ := nodup_cons.mp tail
  refine ⟨?_, inFront, inBack, ?_⟩
  · rw [map_append, mem_append, not_or]
    exact ⟨fun member => across address member address mem_cons_self rfl, notBack⟩
  · intro a member later
    exact across a member a (mem_cons_of_mem _ later) rfl

theorem Holds.unlink :
    Holds (unlink heap ends address).1 (unlink heap ends address).2 (front ++ back) := by
  obtain ⟨_, inFront, inBack, across⟩ := holds.apart
  obtain ⟨before, _, behind⟩ := chain_append.mp holds.chain
  rw [LinkedQueue.unlink, holds.cell]
  refine ⟨?_, ?_, ?_, ?_, ?_⟩
  · simp only
    rw [first_append, holds.head, first_append, first_cons]
    cases front using List.reverseRecOn with
    | nil => rfl
    | append_singleton front cell =>
      rw [last_concat, first_append, first_append]
      cases front <;> rfl
  · simp only
    rw [last_append, holds.tail, last_append, last_cons]
    cases back with
    | nil => rfl
    | cons cell back =>
      rw [first_cons, last_cons, last_cons]
      rfl
  · have size := holds.size
    rw [length_append, length_cons] at size
    simp only [size, length_append]
    omega
  · simp only
    refine chain_append.mpr ⟨?_, ?_⟩
    · refine (before.setNext inFront (first back none)).congr ?_
      intro cell member
      apply write_apart
      intro found
      exact across cell.1 (mem_map_of_mem member) (first_mem found)
    · refine (behind.congr ?_).setPrev inBack (last none front)
      intro cell member
      apply write_apart
      intro found
      exact across cell.1 (last_mem found) (mem_map_of_mem member)
  · rw [map_append, nodup_append]
    refine ⟨inFront, inBack, ?_⟩
    intro a member b later same
    exact across a member (same ▸ later)

/-- Unlinking writes to the cells that stay in the queue only. -/
theorem Holds.unlink_frame {other : Nat} (outside : other ∉ (front ++ back).map Prod.fst) :
    (LinkedQueue.unlink heap ends address).1 other = heap other := by
  rw [map_append, mem_append, not_or] at outside
  rw [LinkedQueue.unlink, holds.cell]
  simp only
  rw [write_apart _ (fun found => outside.2 (first_mem found)),
    write_apart _ (fun found => outside.1 (last_mem found))]

end

end Holds

end LinkedQueue
