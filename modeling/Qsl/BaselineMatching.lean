import Qsl.BaselineStore
import Qsl.MatchingLoops
import Qsl.KeyIndex
import Qsl.PriorityInvariant

namespace Qsl.BaselineStore

open List

/-- Where the orders of one level rest: the entries the index owes them. -/
def locatedLevel (side : Side) (price : Price) (level : Level) : List (OrderId × Locator) :=
  level.map (fun node => (node.order.id, ⟨side, price, node.address⟩))

def locatedSide (side : Side) (entries : List (Price × Level)) : List (OrderId × Locator) :=
  entries.flatMap (fun entry => locatedLevel side entry.1 entry.2)

@[simp] theorem locatedSide_cons (side : Side) (entry : Price × Level)
    (rest : List (Price × Level)) :
    locatedSide side (entry :: rest) =
      locatedLevel side entry.1 entry.2 ++ locatedSide side rest := rfl

def levelOrders (level : Level) : List Order := level.map ListNode.order

/-- A level during its fill loop: its orders, and an index that lists them beside
`others`. `before` are the level's index entries when the loop began. -/
structure FillMeans (side : Side) (price : Price) (before others : List (OrderId × Locator))
    (fill : LevelFill) (orders : List Order) : Prop where
  orders : levelOrders fill.level = orders
  filed : ∀ node ∈ fill.level, node.order.side = side ∧ node.order.price = price
  index : fill.index.Indexes (locatedLevel side price fill.level ++ others)
  located : (locatedLevel side price fill.level).Sublist before

theorem fillSpec (side : Side) (price : Price) (before others : List (OrderId × Locator)) :
    FillLoopSpec LevelFill.ctx (fillLevelStep price) price (FillMeans side price before others) where
  priced := by
    intro fill orders means order member
    rw [← means.orders] at member
    obtain ⟨node, inside, rfl⟩ := mem_map.mp member
    exact (means.filed node inside).2
  stop := by
    intro fill orders means stopped
    rw [fillLevelStep, if_neg]
    intro ⟨positive, occupied⟩
    apply stopped.elim positive
    intro none
    exact occupied (map_eq_nil_iff.mp (means.orders.trans none))
  fill := by
    intro fill maker queued means positive
    rcases fill with ⟨level, index, ctx⟩
    cases level with
    | nil => cases means.orders
    | cons node nodes =>
      have heads := List.cons.inj means.orders
      have tail : ∀ other ∈ nodes, other.order.side = side ∧ other.order.price = price :=
        fun other member => means.filed other (mem_cons_of_mem _ member)
      have maker_eq : node.order = maker := heads.1
      subst maker_eq
      refine ⟨fillFrontOrder price ⟨node :: nodes, index, ctx⟩, ?_, ?_, ?_, ?_⟩
      · exact if_pos ⟨positive, cons_ne_nil _ _⟩
      · simp only [fillFrontOrder]
        split <;> rfl
      · intro exhausted
        simp only [fillFrontOrder, fillMaker, exhausted, BEq.rfl, if_true]
        exact ⟨heads.2, tail, OrderedMap.Indexes.erase_head means.index,
          (sublist_cons_self _ _).trans means.located⟩
      · intro survives
        simp only [fillFrontOrder, fillMaker, beq_eq_false_iff_ne.mpr survives,
          Bool.false_eq_true, if_false]
        refine ⟨congrArg _ heads.2, ?_, means.index, means.located⟩
        intro other member
        rcases mem_cons.mp member with same | later
        · rw [same]
          exact means.filed node mem_cons_self
        · exact tail other later

/-- The opposite side's map and the index during a match. `own` lists the
matching side's entries, which the walk leaves alone, and `before` the walked
side's entries when the walk began. -/
structure WalkMeans (side : Side) (own before : List (OrderId × Locator))
    (entries : List (Price × Level)) (index : Index)
    (buckets : List (Price × List Order)) : Prop where
  orders : buckets = entries.map (fun entry => (entry.1, levelOrders entry.2))
  occupied : ∀ entry ∈ entries, entry.2 ≠ []
  filed : ∀ entry ∈ entries, ∀ node ∈ entry.2,
    node.order.side = side ∧ node.order.price = entry.1
  index : index.Indexes (locatedSide side entries ++ own)
  located : (locatedSide side entries).Sublist before

/-- The baseline level fill, as the loop over levels uses it. -/
theorem walkSpec (side : Side) (own before : List (OrderId × Locator)) :
    LevelWalkSpec fillLevel List.isEmpty (WalkMeans side own before) where
  length := by
    intro entries index buckets means
    rw [means.orders, length_map]
  cons := by
    intro entry rest index buckets means
    refine ⟨levelOrders entry.2, _, means.orders, ?_, ?_⟩
    · have occupied := means.occupied entry mem_cons_self
      simpa [levelOrders] using occupied
    · intro order member
      obtain ⟨node, inside, rfl⟩ := mem_map.mp member
      exact (means.filed entry mem_cons_self node inside).2
  fill := by
    intro price level rest index orders others ctx means positive crossing
    have shape := means.orders
    simp only [map_cons, List.cons.injEq, Prod.mk.injEq, true_and] at shape
    obtain ⟨rfl, rfl⟩ := shape
    have start : FillMeans side price (locatedLevel side price level)
        (locatedSide side rest ++ own) ⟨level, index, ctx⟩ (levelOrders level) := by
      refine ⟨rfl, means.filed (price, level) mem_cons_self, ?_, List.Sublist.refl _⟩
      simpa only [locatedSide_cons, append_assoc] using means.index
    obtain ⟨recorded, filled⟩ := (fillSpec side price _ _).run _ (level.length + 1) _
      (by rw [levelOrders, length_map]; exact Nat.lt_succ_self _) start crossing
    have tailOccupied := fun entry member => means.occupied entry (mem_cons_of_mem _ member)
    have tailFiled := fun entry member => means.filed entry (mem_cons_of_mem _ member)
    have tailLocated := means.located
    rw [locatedSide_cons] at tailLocated
    refine ⟨recorded, ?_, ?_⟩
    · intro used
      have empty : (fillLevel level price index ctx).1 = [] :=
        map_eq_nil_iff.mp (filled.orders.trans used)
      refine ⟨by rw [empty]; rfl, rfl, tailOccupied, tailFiled, ?_, ?_⟩
      · have exact : (fillLevel level price index ctx).2.1.Indexes
            (locatedLevel side price (fillLevel level price index ctx).1 ++
              (locatedSide side rest ++ own)) := filled.index
        rwa [empty] at exact
      · exact (sublist_append_right _ _).trans tailLocated
    · intro remains
      have occupied : (fillLevel level price index ctx).1 ≠ [] := by
        intro empty
        apply remains
        rw [← filled.orders]
        exact map_eq_nil_iff.mpr empty
      refine ⟨by simpa using occupied, ?_, ?_, ?_, ?_, ?_⟩
      · rw [map_cons]
        exact congrArg (fun left => (price, left) :: _) filled.orders.symm
      · intro entry member
        rcases mem_cons.mp member with rfl | later
        · exact occupied
        · exact tailOccupied entry later
      · intro entry member
        rcases mem_cons.mp member with rfl | later
        · exact filled.filed
        · exact tailFiled entry later
      · rw [locatedSide_cons, append_assoc]
        exact filled.index
      · rw [locatedSide_cons]
        exact (filled.located.append_right _).trans tailLocated

end Qsl.BaselineStore
