import Qsl.IntrusiveCells
import Qsl.MatchingLoops

namespace Qsl.IntrusiveStore

open List

variable {capacity : Nat} {side : Side}

/-- A level during its fill loop. `others` are the cells of all other levels; their
nodes stay as `base` has them. -/
structure Filling (capacity : Nat) (side : Side) (price : Price)
    (base : LinkedQueue.Heap Nat) (others : List Cell) (fill : LevelFill) (cells : List Cell) :
    Prop where
  holds : fill.pools.Holds fill.level cells
  filed : ∀ cell ∈ cells, cell.order.side = side ∧ cell.order.price = price
  accounts : Accounts capacity fill.pools (cells ++ others)
  frame : ∀ other ∈ others, fill.pools.nodes.slots other.node = base other.node

def FillMeans (capacity : Nat) (side : Side) (price : Price) (base : LinkedQueue.Heap Nat)
    (others : List Cell) (fill : LevelFill) (orders : List Order) : Prop :=
  ∃ cells, Filling capacity side price base others fill cells ∧ cells.map Cell.order = orders

section Fill

variable {price : Price} {base : LinkedQueue.Heap Nat} {others cells : List Cell}
variable {fill : LevelFill}

theorem Filling.head_none (filling : Filling capacity side price base others fill cells)
    (empty : cells = []) : fill.level.head = none := by
  have head := LinkedQueue.Holds.head filling.holds
  rw [empty] at head
  exact head

theorem Filling.front {cell : Cell}
    (filling : Filling capacity side price base others fill (cell :: cells)) :
    fill.level.head = some cell.node ∧ fill.pools.orderAt cell.node = some cell.order := by
  have holds : fill.pools.Holds fill.level ([] ++ cell :: cells) := filling.holds
  exact ⟨LinkedQueue.Holds.head filling.holds, holds.orderAt filling.accounts⟩

/-- One fill: a used-up maker is detached, another keeps its place with less. -/
theorem Filling.fillFront {cell : Cell}
    (filling : Filling capacity side price base others fill (cell :: cells)) :
    let filled := fillMaker fill.ctx cell.order.id cell.order.quantity price
    (fillFrontOrder price fill).ctx = filled.1 ∧
      (filled.2.1 = 0 →
        Filling capacity side price base others (fillFrontOrder price fill) cells) ∧
      (filled.2.1 ≠ 0 → Filling capacity side price base others (fillFrontOrder price fill)
        (cell.setQuantity filled.2.1 :: cells)) := by
  obtain ⟨head, maker⟩ := filling.front
  let quantity := cell.order.quantity - min fill.ctx.quantity cell.order.quantity
  have linked : fill.pools.Holds fill.level ([] ++ cell :: cells) := filling.holds
  obtain ⟨holds, accounts, nodes⟩ := Accounts.setQuantity linked filling.accounts quantity
  have filedTail : ∀ other ∈ cells, other.order.side = side ∧ other.order.price = price :=
    fun other member => filling.filed other (mem_cons_of_mem _ member)
  have frame : ∀ other ∈ others,
      (fill.pools.setQuantity cell.node quantity).nodes.slots other.node = base other.node := by
    intro other member
    rw [nodes]
    exact filling.frame other member
  simp only [fillFrontOrder, head, maker]
  refine ⟨?_, ?_, ?_⟩
  · split <;> rfl
  · intro exhausted
    have used : (fillMaker fill.ctx cell.order.id cell.order.quantity price).2.2 = true :=
      beq_iff_eq.mpr exhausted
    rw [if_pos used]
    obtain ⟨left, leftAccounts, leftFrame⟩ := Accounts.detach holds accounts
    exact ⟨left, filedTail, leftAccounts,
      fun other member => (leftFrame other member).trans (frame other member)⟩
  · intro survives
    have remains : ¬ (fillMaker fill.ctx cell.order.id cell.order.quantity price).2.2 = true := by
      intro used
      exact survives (beq_iff_eq.mp used)
    rw [if_neg remains]
    refine ⟨holds, ?_, accounts, frame⟩
    intro other member
    rcases mem_cons.mp member with rfl | later
    · exact filling.filed cell mem_cons_self
    · exact filedTail other later

theorem fillSpec (capacity : Nat) (side : Side) (price : Price) (base : LinkedQueue.Heap Nat)
    (others : List Cell) :
    FillLoopSpec LevelFill.ctx (fillLevelStep price) price
      (FillMeans capacity side price base others) where
  priced := by
    intro fill orders ⟨cells, filling, same⟩ order member
    rw [← same] at member
    obtain ⟨cell, inside, rfl⟩ := mem_map.mp member
    exact (filling.filed cell inside).2
  stop := by
    intro fill orders ⟨cells, filling, same⟩ stopped
    rw [fillLevelStep, if_neg]
    intro ⟨positive, occupied⟩
    apply stopped.elim positive
    intro none
    exact occupied (filling.head_none (map_eq_nil_iff.mp (same.trans none)))
  fill := by
    intro fill maker queued ⟨cells, filling, same⟩ positive
    cases cells with
    | nil => cases same
    | cons cell cells =>
      obtain ⟨rfl, rfl⟩ := List.cons.inj same
      obtain ⟨context, used, left⟩ := filling.fillFront
      refine ⟨fillFrontOrder price fill, ?_, context, ?_, ?_⟩
      · have occupied : fill.level.head ≠ none := by
          rw [filling.front.1]
          exact Option.some_ne_none _
        exact if_pos ⟨positive, occupied⟩
      · intro exhausted
        exact ⟨cells, used exhausted, rfl⟩
      · intro survives
        exact ⟨_, left survives, rfl⟩

end Fill

/-- A level of the map: a nonempty list of orders of its side and price. -/
structure LevelShape (side : Side) (pools : Pools) (entry : Price × Level) (cells : List Cell) :
    Prop where
  holds : pools.Holds entry.2 cells
  occupied : cells ≠ []
  filed : ∀ cell ∈ cells, cell.order.side = side ∧ cell.order.price = entry.1

theorem LevelShape.congr {pools pools' : Pools} {entry : Price × Level} {cells : List Cell}
    (shape : LevelShape side pools entry cells)
    (same : ∀ cell ∈ cells, pools'.nodes.slots cell.node = pools.nodes.slots cell.node) :
    LevelShape side pools' entry cells :=
  { shape with holds := shape.holds.congr same }

/-- The opposite side's map and the pools during a match. `own` are the matching
side's cells, whose nodes stay as `base` has them. -/
structure Walking (capacity : Nat) (side : Side) (base : LinkedQueue.Heap Nat) (own : List Cell)
    (entries : List (Price × Level)) (pools : Pools) (cells : Price → List Cell) : Prop where
  distinct : (entries.map Prod.fst).Nodup
  levels : ∀ entry ∈ entries, LevelShape side pools entry (cells entry.1)
  accounts : Accounts capacity pools (entries.flatMap (fun entry => cells entry.1) ++ own)
  frame : ∀ cell ∈ own, pools.nodes.slots cell.node = base cell.node

def WalkMeans (capacity : Nat) (side : Side) (base : LinkedQueue.Heap Nat) (own : List Cell)
    (entries : List (Price × Level)) (pools : Pools) (buckets : List (Price × List Order)) : Prop :=
  ∃ cells, Walking capacity side base own entries pools cells ∧
    buckets = entries.map (fun entry => (entry.1, (cells entry.1).map Cell.order))

section Walk

variable {base : LinkedQueue.Heap Nat} {own : List Cell} {price : Price} {level : Level}
variable {rest : List (Price × Level)} {pools : Pools} {cells : Price → List Cell}

theorem Walking.start
    (walking : Walking capacity side base own ((price, level) :: rest) pools cells)
    (ctx : MatchContext) :
    Filling capacity side price pools.nodes.slots
      (rest.flatMap (fun entry => cells entry.1) ++ own) ⟨level, pools, ctx⟩ (cells price) where
  holds := (walking.levels (price, level) mem_cons_self).holds
  filed := (walking.levels (price, level) mem_cons_self).filed
  accounts := by
    have accounts := walking.accounts
    rw [flatMap_cons, append_assoc] at accounts
    exact accounts
  frame := fun _ _ => rfl

/-- The other levels after the best one was filled. -/
theorem Walking.tail {fill : LevelFill} {left : List Cell}
    (walking : Walking capacity side base own ((price, level) :: rest) pools cells)
    (filling : Filling capacity side price pools.nodes.slots
      (rest.flatMap (fun entry => cells entry.1) ++ own) fill left) :
    (∀ entry ∈ rest, LevelShape side fill.pools entry (cells entry.1)) ∧
      ∀ cell ∈ own, fill.pools.nodes.slots cell.node = base cell.node := by
  refine ⟨?_, ?_⟩
  · intro entry member
    apply (walking.levels entry (mem_cons_of_mem _ member)).congr
    intro cell inside
    exact filling.frame cell
      (mem_append_left _ (mem_flatMap.mpr ⟨entry, member, inside⟩))
  · intro cell member
    exact (filling.frame cell (mem_append_right _ member)).trans (walking.frame cell member)

theorem Walking.used {fill : LevelFill}
    (walking : Walking capacity side base own ((price, level) :: rest) pools cells)
    (filling : Filling capacity side price pools.nodes.slots
      (rest.flatMap (fun entry => cells entry.1) ++ own) fill []) :
    Walking capacity side base own rest fill.pools cells :=
  ⟨(nodup_cons.mp walking.distinct).2, (walking.tail filling).1, filling.accounts,
    (walking.tail filling).2⟩

theorem Walking.left {fill : LevelFill} {left : List Cell}
    (walking : Walking capacity side base own ((price, level) :: rest) pools cells)
    (filling : Filling capacity side price pools.nodes.slots
      (rest.flatMap (fun entry => cells entry.1) ++ own) fill left) (remains : left ≠ []) :
    Walking capacity side base own ((price, fill.level) :: rest) fill.pools
        (Function.update cells price left) ∧
      ∀ entry ∈ rest, Function.update cells price left entry.1 = cells entry.1 := by
  have others : ∀ entry ∈ rest, Function.update cells price left entry.1 = cells entry.1 := by
    intro entry member
    apply Function.update_of_ne
    intro same
    exact (nodup_cons.mp walking.distinct).1 (mem_map.mpr ⟨entry, member, same⟩)
  refine ⟨⟨walking.distinct, ?_, ?_, (walking.tail filling).2⟩, others⟩
  · intro entry member
    rcases mem_cons.mp member with rfl | later
    · rw [Function.update_self]
      exact ⟨filling.holds, remains, filling.filed⟩
    · rw [others entry later]
      exact (walking.tail filling).1 entry later
  · rw [flatMap_cons, Function.update_self, append_assoc, flatMap_congr others]
    exact filling.accounts

/-- The intrusive level fill, as the loop over levels uses it. -/
theorem walkSpec (capacity : Nat) (side : Side) (base : LinkedQueue.Heap Nat) (own : List Cell) :
    LevelWalkSpec fillLevel (fun level => level.size == 0) (WalkMeans capacity side base own) where
  length := by
    intro entries pools buckets ⟨cells, _, shape⟩
    rw [shape, length_map]
  cons := by
    intro entry rest pools buckets ⟨cells, walking, shape⟩
    have here := walking.levels entry mem_cons_self
    refine ⟨(cells entry.1).map Cell.order, _, shape, ?_, ?_⟩
    · simpa using here.occupied
    · intro order member
      obtain ⟨cell, inside, rfl⟩ := mem_map.mp member
      exact (here.filed cell inside).2
  fill := by
    intro price level rest pools orders others ctx ⟨cells, walking, shape⟩ positive crossing
    simp only [map_cons, List.cons.injEq, Prod.mk.injEq, true_and] at shape
    obtain ⟨rfl, rfl⟩ := shape
    have size := LinkedQueue.Holds.size (walking.start ctx).holds
    have enough : ((cells price).map Cell.order).length < level.size + 1 := by
      rw [length_map] at size ⊢
      exact Nat.lt_succ_of_le (Nat.le_of_eq size.symm)
    obtain ⟨recorded, left, filling, same⟩ := (fillSpec capacity side price _ _).run _
      (level.size + 1) _ enough ⟨_, walking.start ctx, rfl⟩ crossing
    have count : (fillLevel level price pools ctx).1.size = left.length := by
      have sized := LinkedQueue.Holds.size filling.holds
      rwa [length_map] at sized
    refine ⟨recorded, ?_, ?_⟩
    · intro none
      have empty : left = [] := map_eq_nil_iff.mp (same.trans none)
      subst empty
      exact ⟨beq_iff_eq.mpr count, cells, walking.used filling, rfl⟩
    · intro some
      have remains : left ≠ [] := by
        intro empty
        apply some
        rw [← same, empty]
        rfl
      obtain ⟨after, unchanged⟩ := walking.left filling remains
      refine ⟨?_, _, after, ?_⟩
      · rw [beq_eq_false_iff_ne, count]
        simpa using remains
      · have rest_eq : rest.map (fun entry =>
            (entry.1, (Function.update cells price left entry.1).map Cell.order)) =
              rest.map (fun entry => (entry.1, (cells entry.1).map Cell.order)) := by
          apply map_congr_left
          intro entry member
          rw [unchanged entry member]
        rw [map_cons, rest_eq, Function.update_self, same]

end Walk

end Qsl.IntrusiveStore
