import Qsl.ContiguousLevel
import Qsl.PriorityInvariant

namespace Qsl.ContiguousStore

open List

variable {price : Price} {store : ContiguousStore} {level : FlatLevel}

section Band

theorem toInt_priceOf {slot : Nat} (inside : slot < bandWidth) :
    (priceOf slot).toInt = 1 + slot := by
  have small : slot < 1024 := inside
  have offset : (Int64.ofNat slot).toInt = slot := Int64.toInt_ofNat_of_lt (by omega)
  rw [priceOf, Int64.toInt_add, offset]
  exact Int.bmod_eq_of_le (n := 1 + (slot : Int)) (m := 2 ^ 64) (by omega) (by omega)

theorem inBand_iff : inBand price = true ↔ 1 ≤ price.toInt ∧ price.toInt ≤ 1024 := by
  rw [inBand, decide_eq_true_iff, Int64.le_iff_toInt_le, Int64.le_iff_toInt_le]
  rfl

theorem slotOf_eq (banded : inBand price = true) : (slotOf price : Int) = price.toInt - 1 := by
  obtain ⟨low, high⟩ := inBand_iff.mp banded
  have difference : (price - minPrice).toInt = price.toInt - 1 := by
    rw [Int64.toInt_sub]
    exact Int.bmod_eq_of_le (n := price.toInt - 1) (m := 2 ^ 64) (by omega) (by omega)
  have cond := BitVec.toInt_eq_toNat_cond (price - minPrice).toBitVec
  have bound := (price - minPrice).toBitVec.isLt
  rw [Int64.toInt_toBitVec, difference] at cond
  rw [slotOf, ← Int64.toNat_toBitVec]
  split at cond
  · omega
  · omega

theorem slotOf_lt (banded : inBand price = true) : slotOf price < bandWidth := by
  obtain ⟨low, high⟩ := inBand_iff.mp banded
  have place := slotOf_eq banded
  have width : bandWidth = 1024 := rfl
  omega

theorem inBand_priceOf {slot : Nat} (inside : slot < bandWidth) : inBand (priceOf slot) = true := by
  have value := toInt_priceOf inside
  have width : bandWidth = 1024 := rfl
  apply inBand_iff.mpr
  omega

theorem priceOf_slotOf (banded : inBand price = true) : priceOf (slotOf price) = price := by
  apply Int64.toInt_inj.mp
  have value := toInt_priceOf (slotOf_lt banded)
  have place := slotOf_eq banded
  omega

theorem slotOf_priceOf {slot : Nat} (inside : slot < bandWidth) : slotOf (priceOf slot) = slot := by
  have value := toInt_priceOf inside
  have place := slotOf_eq (inBand_priceOf inside)
  omega

end Band

/-- The slots of a side, best price first. -/
def slots : Side → List Nat
  | .buy => (List.range bandWidth).reverse
  | .sell => List.range bandWidth

theorem mem_slots {side : Side} {slot : Nat} : slot ∈ slots side ↔ slot < bandWidth := by
  cases side
  · rw [slots, mem_reverse, mem_range]
  · rw [slots, mem_range]

theorem slots_nodup (side : Side) : (slots side).Nodup := by
  cases side
  · rw [slots]
    exact nodup_reverse.mpr nodup_range
  · rw [slots]
    exact nodup_range

theorem slots_better (side : Side) :
    (slots side).Pairwise (fun a b => Better side (priceOf a) (priceOf b)) := by
  have ascending : (List.range bandWidth).Pairwise (fun a b => priceOf a < priceOf b) := by
    apply List.Pairwise.imp_of_mem _ pairwise_lt_range
    intro a b inA inB below
    rw [Int64.lt_iff_toInt_lt, toInt_priceOf (mem_range.mp inA),
      toInt_priceOf (mem_range.mp inB)]
    omega
  cases side
  · rw [slots]
    exact pairwise_reverse.mpr ascending
  · rw [slots]
    exact ascending

/-- A side's orders, slot by slot. -/
@[irreducible] def sideOrders (side : Side) (levels : Nat → FlatLevel) : List Order :=
  (slots side).flatMap (fun slot => liveOrders side (priceOf slot) (levels slot).orders)

@[irreducible] def locatedSide (side : Side) (levels : Nat → FlatLevel) : List (OrderId × Locator) :=
  (slots side).flatMap (fun slot => locatedLevel side (priceOf slot) (levels slot))

/-- The price-time priority book that the arrays hold. -/
def view (store : ContiguousStore) : Book :=
  ⟨sideOrders .buy store.bids.levels, sideOrders .sell store.asks.levels⟩

def located (store : ContiguousStore) : List (OrderId × Locator) :=
  locatedSide .buy store.bids.levels ++ locatedSide .sell store.asks.levels

theorem view_side (store : ContiguousStore) (side : Side) :
    store.view.side side = sideOrders side (store.sideRef side).levels := by
  cases side <;> simp only [view, Book.side, sideRef]

theorem located_perm (store : ContiguousStore) (side : Side) :
    store.located.Perm (locatedSide side (store.sideRef side).levels ++
      locatedSide side.opposite (store.sideRef side.opposite).levels) := by
  cases side
  · exact List.Perm.refl _
  · exact perm_append_comm

/-- Every level is tidy and the bitmap marks exactly the occupied ones. -/
structure SideValid (bookSide : BookSide) : Prop where
  tidy : ∀ slot < bandWidth, (bookSide.levels slot).Tidy
  marked : ∀ slot < bandWidth,
    (Bitmap.test bookSide.bits slot = true ↔ (bookSide.levels slot).alive ≠ 0)

/-- The representation invariant: valid arrays, an index that gives every live
order its position, and a well-formed book. -/
structure Valid (store : ContiguousStore) : Prop where
  sides : ∀ side, SideValid (store.sideRef side)
  indexed : store.index.Indexes store.located
  book : store.view.WellFormed

theorem valid_empty : Valid empty where
  sides := by
    have fresh : SideValid emptySide := by
      refine ⟨fun _ _ => FlatLevel.tidy_empty, ?_⟩
      intro slot _
      simp [emptySide, Bitmap.test]
    intro side
    cases side
    · exact fresh
    · exact fresh
  indexed := by
    have none : ∀ side, locatedSide side emptySide.levels = [] := by
      intro side
      rw [locatedSide]
      apply flatMap_eq_nil_iff.mpr
      intro slot _
      rfl
    rw [located, empty, none, none]
    exact OrderedMap.indexes_empty
  book := by
    have none : ∀ side, sideOrders side emptySide.levels = [] := by
      intro side
      rw [sideOrders]
      apply flatMap_eq_nil_iff.mpr
      intro slot _
      rfl
    rw [view, empty, none, none]
    exact Book.wellFormed_empty

/-- A change of one side: the conditions to check are those of that side alone. -/
theorem Valid.replace (valid : store.Valid) (side : Side) {bookSide : BookSide} {index : Index}
    (sound : SideValid bookSide) (indexed : index.Indexes (locatedSide side bookSide.levels ++
      locatedSide side.opposite (store.sideRef side.opposite).levels))
    (book : (store.view.setSide side (sideOrders side bookSide.levels)).WellFormed) :
    Valid { store.setSideRef side bookSide with index := index } := by
  have other := valid.sides side.opposite
  cases side with
  | buy =>
    refine ⟨?_, indexed, book⟩
    intro side
    cases side
    · exact sound
    · exact other
  | sell =>
    refine ⟨?_, indexed.perm perm_append_comm, book⟩
    intro side
    cases side
    · exact other
    · exact sound

theorem Valid.indexed_side (valid : store.Valid) (side : Side) :
    store.index.Indexes (locatedSide side (store.sideRef side).levels ++
      locatedSide side.opposite (store.sideRef side.opposite).levels) :=
  valid.indexed.perm (store.located_perm side)

theorem view_setSideRef (store : ContiguousStore) (side : Side) (bookSide : BookSide)
    (index : Index) :
    view { store.setSideRef side bookSide with index := index } =
      store.view.setSide side (sideOrders side bookSide.levels) := by
  cases side <;> simp only [view, setSideRef, Book.setSide]

theorem located_ids (store : ContiguousStore) :
    store.located.map Prod.fst = store.view.restingOrders.map Order.id := by
  have sides : ∀ side levels, (locatedSide side levels).map Prod.fst =
      (sideOrders side levels).map Order.id := by
    intro side levels
    rw [locatedSide, sideOrders, map_flatMap, map_flatMap]
    apply flatMap_congr
    intro slot _
    rw [locatedLevel, locatedFrom_ids, liveOrders_ids]
  rw [located, Book.restingOrders, map_append, map_append, sides, sides]
  rfl

theorem Valid.contains_eq (valid : store.Valid) (id : OrderId) :
    store.contains id = store.view.contains id := by
  rw [Bool.eq_iff_iff, Book.contains_iff, ← located_ids]
  exact valid.indexed.contains_iff

@[simp] theorem setLevel_same (bookSide : BookSide) (slot : Nat) (level : FlatLevel) :
    (bookSide.setLevel slot level).levels slot = level := if_pos rfl

theorem setLevel_other (bookSide : BookSide) {slot other : Nat} (level : FlatLevel)
    (differ : other ≠ slot) : (bookSide.setLevel slot level).levels other = bookSide.levels other :=
  if_neg differ

theorem setLevel_self (bookSide : BookSide) (slot : Nat) :
    bookSide.setLevel slot (bookSide.levels slot) = bookSide := by
  rcases bookSide with ⟨levels, bits⟩
  simp only [BookSide.setLevel, BookSide.mk.injEq, and_true]
  funext other
  split
  · rename_i same
    rw [same]
  · rfl

section Frame

variable {side : Side} {slot : Nat} (bookSide : BookSide)

/-- Reading all slots in order when one level is replaced: what lies before and
after it stays. -/
theorem flatMap_frame {α : Type} (content : Nat → FlatLevel → List α) (side : Side)
    (inside : slot < bandWidth) :
    ∃ front back, ∀ level, (slots side).flatMap
        (fun other => content other ((bookSide.setLevel slot level).levels other)) =
      front ++ content slot level ++ back := by
  obtain ⟨pre, post, parts⟩ := append_of_mem (mem_slots.mpr inside : slot ∈ slots side)
  have distinct := slots_nodup side
  rw [parts, nodup_append] at distinct
  obtain ⟨_, tailDistinct, apart⟩ := distinct
  refine ⟨pre.flatMap (fun other => content other (bookSide.levels other)),
    post.flatMap (fun other => content other (bookSide.levels other)), ?_⟩
  intro level
  have before : pre.flatMap
      (fun other => content other ((bookSide.setLevel slot level).levels other)) =
        pre.flatMap (fun other => content other (bookSide.levels other)) := by
    apply flatMap_congr
    intro other member
    have differ := apart other member slot mem_cons_self
    rw [setLevel_other bookSide level differ]
  have after : post.flatMap
      (fun other => content other ((bookSide.setLevel slot level).levels other)) =
        post.flatMap (fun other => content other (bookSide.levels other)) := by
    apply flatMap_congr
    intro other member
    have differ : other ≠ slot := by
      intro hit
      exact (nodup_cons.mp tailDistinct).1 (hit ▸ member)
    rw [setLevel_other bookSide level differ]
  rw [parts, List.flatMap_append, flatMap_cons, before, after, setLevel_same,
    append_assoc]

theorem orders_frame (side : Side) (inside : slot < bandWidth) :
    ∃ front back, ∀ level, sideOrders side (bookSide.setLevel slot level).levels =
      front ++ liveOrders side (priceOf slot) level.orders ++ back := by
  simp only [sideOrders]
  exact flatMap_frame bookSide
    (fun slot level => liveOrders side (priceOf slot) level.orders) side inside

/-- A change of one level owes the index a change of that level's entries only. -/
theorem index_frame {index index' : Index} {own : List (OrderId × Locator)}
    (inside : slot < bandWidth) (exact : index.Indexes (locatedSide side bookSide.levels ++ own))
    (moved : ∀ others,
      index.Indexes (locatedLevel side (priceOf slot) (bookSide.levels slot) ++ others) →
      index'.Indexes (locatedLevel side (priceOf slot) level ++ others)) :
    index'.Indexes (locatedSide side (bookSide.setLevel slot level).levels ++ own) := by
  obtain ⟨front, back, framed⟩ := flatMap_frame bookSide
    (fun slot level => locatedLevel side (priceOf slot) level) side inside
  have gathered : ∀ entries, (front ++ entries ++ back ++ own).Perm
      (entries ++ (front ++ (back ++ own))) := by
    intro entries
    simp only [append_assoc]
    exact perm_append_comm_assoc front entries (back ++ own)
  have old := framed (bookSide.levels slot)
  rw [setLevel_self] at old
  have new := framed level
  rw [locatedSide, new]
  rw [locatedSide, old] at exact
  exact (moved _ (exact.perm (gathered _))).perm (gathered _).symm

/-- Any one level's entries can be singled out. -/
theorem index_level {bookSide : BookSide} {index : Index} {own : List (OrderId × Locator)}
    (inside : slot < bandWidth)
    (exact : index.Indexes (locatedSide side bookSide.levels ++ own)) :
    ∃ others, index.Indexes
      (locatedLevel side (priceOf slot) (bookSide.levels slot) ++ others) := by
  obtain ⟨front, back, framed⟩ := flatMap_frame bookSide
    (fun slot level => locatedLevel side (priceOf slot) level) side inside
  have old := framed (bookSide.levels slot)
  rw [setLevel_self] at old
  rw [locatedSide, old] at exact
  refine ⟨front ++ (back ++ own), exact.perm ?_⟩
  simp only [append_assoc]
  exact perm_append_comm_assoc front _ (back ++ own)

/-- Replacing one level by a tidy one, with its bit set to whether it is occupied. -/
theorem SideValid.replace {bookSide : BookSide} (valid : SideValid bookSide) {bits : Bitmap.Words}
    (tidy : level.Tidy)
    (own : slot < bandWidth → (Bitmap.test bits slot = true ↔ level.alive ≠ 0))
    (others : ∀ other, other ≠ slot → Bitmap.test bits other = Bitmap.test bookSide.bits other) :
    SideValid { bookSide.setLevel slot level with bits := bits } := by
  constructor
  · intro other inside
    by_cases same : other = slot
    · subst same
      change ((bookSide.setLevel other level).levels other).Tidy
      rw [setLevel_same]
      exact tidy
    · change ((bookSide.setLevel slot level).levels other).Tidy
      rw [setLevel_other _ _ same]
      exact valid.tidy other inside
  · intro other inside
    change _ ↔ ((bookSide.setLevel slot level).levels other).alive ≠ 0
    by_cases same : other = slot
    · subst same
      rw [setLevel_same]
      exact own inside
    · rw [setLevel_other _ _ same, others other same]
      exact valid.marked other inside

/-- A level that stays occupied keeps its bit. -/
theorem SideValid.keep {bookSide : BookSide} (valid : SideValid bookSide) (sound : level.Sound)
    (before : (bookSide.levels slot).alive ≠ 0) (after : level.alive ≠ 0) :
    SideValid (bookSide.setLevel slot level) :=
  valid.replace (FlatLevel.Tidy.of_alive sound after)
    (fun inside => (valid.marked slot inside).trans (iff_of_true before after)) (fun _ _ => rfl)

theorem clearLevel_setLevel (bookSide : BookSide) (slot : Nat) (level : FlatLevel) :
    clearLevel (bookSide.setLevel slot level) slot =
      { bookSide.setLevel slot ⟨[], 0, 0⟩ with bits := Bitmap.clear bookSide.bits slot } := by
  simp only [clearLevel, BookSide.setLevel, BookSide.mk.injEq, and_true]
  funext other
  split <;> rfl

theorem SideValid.clearLevel {bookSide : BookSide} (valid : SideValid bookSide)
    (level : FlatLevel) :
    SideValid (ContiguousStore.clearLevel (bookSide.setLevel slot level) slot) := by
  rw [clearLevel_setLevel]
  apply valid.replace FlatLevel.tidy_empty
  · intro _
    simp [Bitmap.test_clear]
  · intro other differ
    simp [Bitmap.test_clear, differ]

end Frame

end Qsl.ContiguousStore
