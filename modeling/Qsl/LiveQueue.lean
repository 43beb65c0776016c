import Mathlib.Data.List.Basic
import Mathlib.Tactic.Common

/- A queue in a vector whose removed elements stay as tombstones: `live` tells the
elements that count, and each of them is known by its position in the vector. -/
namespace LiveQueue

open List

variable {α : Type} (live : α → Bool)

/-- The live elements with their positions; the vector begins at `start`. -/
def placed (start : Nat) (xs : List α) : List (α × Nat) :=
  (xs.zipIdx start).filter (fun entry => live entry.1)

@[simp] theorem placed_nil (start : Nat) : placed live start [] = [] := rfl

theorem placed_cons (start : Nat) (x : α) (xs : List α) :
    placed live start (x :: xs) =
      if live x then (x, start) :: placed live (start + 1) xs else placed live (start + 1) xs := by
  rw [placed, zipIdx_cons, filter_cons]
  rfl

theorem placed_append (start : Nat) (xs ys : List α) :
    placed live start (xs ++ ys) = placed live start xs ++ placed live (start + xs.length) ys := by
  rw [placed, zipIdx_append, filter_append]
  rfl

theorem placed_values (start : Nat) (xs : List α) :
    (placed live start xs).map Prod.fst = xs.filter live := by
  induction xs generalizing start with
  | nil => rfl
  | cons x xs ih =>
    rw [placed_cons, filter_cons]
    split
    · rw [map_cons, ih]
    · exact ih _

variable {live}

theorem placed_dead (start : Nat) {xs : List α} (dead : ∀ x ∈ xs, live x = false) :
    placed live start xs = [] := by
  have none : (placed live start xs).map Prod.fst = [] := by
    rw [placed_values]
    apply filter_eq_nil_iff.mpr
    intro x member
    rw [dead x member]
    exact Bool.false_ne_true
  exact map_eq_nil_iff.mp none

/-- A placed element splits the vector at its position. -/
theorem split_of_placed {xs : List α} {x : α} {start pos : Nat}
    (member : (x, pos) ∈ placed live start xs) :
    live x = true ∧ ∃ front back, xs = front ++ x :: back ∧ start + front.length = pos := by
  induction xs generalizing start with
  | nil => cases member
  | cons y ys ih =>
    rw [placed_cons] at member
    have later : (x, pos) ∈ placed live (start + 1) ys →
        live x = true ∧ ∃ front back, y :: ys = front ++ x :: back ∧ start + front.length = pos := by
      intro inside
      obtain ⟨alive, front, back, shape, place⟩ := ih inside
      refine ⟨alive, y :: front, back, ?_, ?_⟩
      · rw [shape, cons_append]
      · rw [length_cons]
        omega
    split at member
    · rename_i alive
      rcases mem_cons.mp member with same | inside
      · cases same
        exact ⟨alive, [], ys, rfl, Nat.add_zero _⟩
      · exact later inside
    · exact later member

theorem placed_split {x : α} (alive : live x = true) (start : Nat) (front back : List α) :
    placed live start (front ++ x :: back) =
      placed live start front ++ (x, start + front.length) ::
        placed live (start + front.length + 1) back := by
  rw [placed_append, placed_cons, if_pos alive]

/-- Turning an element into a tombstone drops it and moves no other. -/
theorem placed_kill {x : α} (dead : live x = false) (start : Nat) (front back : List α) :
    placed live start (front ++ x :: back) =
      placed live start front ++ placed live (start + front.length + 1) back := by
  rw [placed_append, placed_cons, dead]
  rfl

omit live in
theorem modify_middle (f : α → α) (front : List α) (x : α) (back : List α) :
    (front ++ x :: back).modify front.length f = front ++ f x :: back := by
  induction front with
  | nil => rfl
  | cons y front ih => rw [cons_append, length_cons, modify_succ_cons, ih,
      cons_append]

omit live in
theorem set_middle (front : List α) (x y : α) (back : List α) :
    (front ++ x :: back).set front.length y = front ++ y :: back := by
  rw [set_append_right _ _ (Nat.le_refl _), Nat.sub_self, set_cons_zero]

end LiveQueue
