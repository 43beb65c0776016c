import Qsl.BaselineBook

/- A storage mode beside the baseline book: both get the same calls, except that the
baseline book is spared those the storage mode refuses. -/
namespace Qsl.Lockstep

variable {σ : Type} (applyTo : σ → BookOp → σ × BookReply) (refuses : σ → BookOp → Bool)

def step (books : σ × BaselineStore) (op : BookOp) : σ × BaselineStore :=
  ((applyTo books.1 op).1, if refuses books.1 op then books.2 else (books.2.apply op).1)

def drive (start : σ) (ops : List BookOp) : σ × BaselineStore :=
  ops.foldl (step applyTo refuses) (start, .empty)

theorem drive_append (start : σ) (ops : List BookOp) (op : BookOp) :
    drive applyTo refuses start (ops ++ [op]) =
      step applyTo refuses (drive applyTo refuses start ops) op := by
  rw [drive, List.foldl_append]
  rfl

/-- What a storage mode owes: an accepted call does what the priority book does, a
refused one changes nothing, and observers answer from the book. -/
structure Refinement (Valid : σ → Prop) (view : σ → Book) (observe : σ → Observation) : Prop where
  accepted : ∀ store op, Valid store → refuses store op = false →
    Agrees Valid view (applyTo store op) ((view store).apply op)
  refused : ∀ store op, Valid store → refuses store op = true →
    applyTo store op = (store, .traded [])
  observed : ∀ store, Valid store → observe store = (view store).observe

/-- Valid stores that hold the same book. -/
structure Matches (Valid : σ → Prop) (view : σ → Book) (books : σ × BaselineStore) : Prop where
  store : Valid books.1
  baseline : books.2.Valid
  same : view books.1 = books.2.view

section Run

variable {applyTo refuses} {Valid : σ → Prop} {view : σ → Book} {observe : σ → Observation}
variable (refinement : Refinement applyTo refuses Valid view observe)

include refinement

section

variable {books : σ × BaselineStore} (pair : Matches Valid view books)

include pair

theorem Matches.observe_eq : observe books.1 = books.2.observe := by
  rw [refinement.observed _ pair.store, pair.baseline.observe_eq, pair.same]

/-- An accepted call on matching books: equal answers, and the books match again. -/
theorem Matches.accepted {op : BookOp} (accepted : refuses books.1 op = false) :
    (applyTo books.1 op).2 = (books.2.apply op).2 ∧
      Matches Valid view ((applyTo books.1 op).1, (books.2.apply op).1) := by
  have own := refinement.accepted _ op pair.store accepted
  have other := pair.baseline.apply op
  rw [← pair.same] at other
  exact ⟨own.answer.trans other.answer.symm, own.valid, other.valid,
    own.view.trans other.view.symm⟩

theorem Matches.step (op : BookOp) :
    Matches Valid view (Lockstep.step applyTo refuses books op) := by
  cases refused : refuses books.1 op with
  | true =>
    rw [Lockstep.step, refused, refinement.refused _ op pair.store refused]
    exact pair
  | false =>
    rw [Lockstep.step, refused]
    exact (Matches.accepted refinement pair refused).2

end

/-- The books match after any calls. -/
theorem drive_matches {start : σ} (valid : Valid start) (empty : view start = Book.empty)
    (ops : List BookOp) : Matches Valid view (drive applyTo refuses start ops) := by
  have kept : ∀ books, Matches Valid view books →
      Matches Valid view (ops.foldl (Lockstep.step applyTo refuses) books) := by
    induction ops with
    | nil => exact fun books pair => pair
    | cons op ops ih => exact fun books pair => ih _ (Matches.step refinement pair op)
  exact kept _ ⟨valid, BaselineStore.valid_empty, empty⟩

end Run

end Qsl.Lockstep
