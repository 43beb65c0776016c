import Qsl.ContiguousBook
import Qsl.Machine

/- How many tombstones a level can hold, and the layout of a store after any calls. -/
namespace Qsl

open List

variable {level : FlatLevel} {bookSide : BookSide}

/-- No tombstone at all, or no more than `maybe_compact` lets stand. -/
def FlatLevel.Slim (level : FlatLevel) : Prop :=
  (∀ order ∈ level.orders, order.isLive = true) ∨
    level.orders.length - level.alive ≤ max level.alive (ContiguousStore.compactMinSize - 1)

namespace FlatLevel

theorem slim_empty : Slim ⟨[], 0, 0⟩ := Or.inl (by intro order member; cases member)

theorem Slim.push (slim : level.Slim) {order : FlatOrder} (alive : order.isLive = true) :
    Slim ⟨level.orders ++ [order], level.head, level.alive + 1⟩ := by
  rcases slim with allLive | few
  · apply Or.inl
    intro other member
    rcases mem_append.mp member with old | new
    · exact allLive other old
    · rw [mem_singleton.mp new]
      exact alive
  · apply Or.inr
    change (level.orders ++ [order]).length - (level.alive + 1) ≤
      max (level.alive + 1) (ContiguousStore.compactMinSize - 1)
    rw [length_append, length_singleton]
    omega

theorem Slim.setQuantity (slim : level.Slim) (pos : Nat) {quantity : Quantity}
    (positive : quantity ≠ 0) : (level.setQuantity pos quantity).Slim := by
  rcases slim with allLive | few
  · apply Or.inl
    intro order member
    change order ∈ level.orders.modify pos (fun order => { order with quantity := quantity })
      at member
    obtain ⟨i, found⟩ := mem_iff_getElem?.mp member
    rw [getElem?_modify] at found
    obtain ⟨old, inside, rfl⟩ := Option.map_eq_some_iff.mp found
    split
    · exact FlatOrder.isLive_iff.mpr positive
    · exact allLive old (mem_of_getElem? inside)
  · apply Or.inr
    change (level.orders.modify pos _).length - level.alive ≤ _
    rw [length_modify]
    exact few

end FlatLevel

namespace ContiguousStore

theorem compactStep_live (orders : List FlatOrder) (state : Index × List FlatOrder)
    (kept : ∀ order ∈ state.2, order.isLive = true) :
    ∀ order ∈ (orders.foldl compactStep state).2, order.isLive = true := by
  induction orders generalizing state with
  | nil => exact kept
  | cons order orders ih =>
    rw [foldl_cons]
    apply ih
    rw [compactStep]
    split
    · exact kept
    · rename_i positive
      intro other member
      rcases mem_append.mp member with old | new
      · exact kept other old
      · rw [mem_singleton.mp new]
        exact FlatOrder.isLive_iff.mpr positive

/-- A level that was due for compaction has no tombstones left, any other has few. -/
theorem maybeCompact_slim (index : Index) (level : FlatLevel) :
    (maybeCompact index level).1.Slim := by
  rw [maybeCompact]
  split
  · exact Or.inl (compactStep_live _ (index, []) (by intro order member; cases member))
  · rename_i notDue
    apply Or.inr
    change level.orders.length - level.alive ≤ max level.alive (compactMinSize - 1)
    omega

theorem fillFrontOrder_length (price : Price) (fill : LevelFill) :
    (fillFrontOrder price fill).level.orders.length = fill.level.orders.length := by
  simp only [fillFrontOrder]
  split
  · rfl
  · split
    · exact length_set
    · exact length_set

theorem fillLevel_length (level : FlatLevel) (price : Price) (index : Index) (ctx : MatchContext) :
    (fillLevel level price index ctx).level.orders.length = level.orders.length := by
  apply WhileLoop.run_invariant
    (fun fill : LevelFill => fill.level.orders.length = level.orders.length) _ rfl
  intro fill next taken kept
  rw [fillLevelStep] at taken
  split at taken
  · cases taken
    exact (fillFrontOrder_length price fill).trans kept
  · cases taken

theorem shouldRestLimit_positive {result : MatchResult} {tif : TimeInForce}
    (rests : shouldRestLimit result tif = true) : result.remainder ≠ 0 := by
  intro none
  simp [shouldRestLimit, none] at rests

/-- A property of levels, by slot, that outlasts every change but a new entry. -/
structure LevelRule (holds : Nat → FlatLevel → Prop) : Prop where
  cleared : ∀ slot, holds slot ⟨[], 0, 0⟩
  compacted : ∀ slot level written index, written.orders.length = level.orders.length →
    holds slot level → holds slot (maybeCompact index written).1
  reduced : ∀ slot level pos quantity, quantity ≠ 0 → holds slot level →
    holds slot (level.setQuantity pos quantity)

theorem slim_rule : LevelRule (fun _ => FlatLevel.Slim) where
  cleared := fun _ => FlatLevel.slim_empty
  compacted := fun _ _ written index _ _ => maybeCompact_slim index written
  reduced := fun _ _ pos _ positive slim => slim.setQuantity pos positive

def EverySide (holds : Nat → FlatLevel → Prop) (bookSide : BookSide) : Prop :=
  ∀ slot, holds slot (bookSide.levels slot)

def EveryLevel (holds : Nat → FlatLevel → Prop) (store : ContiguousStore) : Prop :=
  ∀ side, EverySide holds (store.sideRef side)

section Every

variable {holds : Nat → FlatLevel → Prop}

theorem EverySide.setLevel (every : EverySide holds bookSide) {slot : Nat}
    (written : holds slot level) : EverySide holds (bookSide.setLevel slot level) := by
  intro other
  by_cases same : other = slot
  · rw [same, setLevel_same]
    exact written
  · rw [setLevel_other _ _ same]
    exact every other

theorem EveryLevel.replace {store : ContiguousStore} (every : EveryLevel holds store)
    (side : Side) (index : Index) (written : EverySide holds bookSide) :
    EveryLevel holds { store.setSideRef side bookSide with index := index } := by
  intro other
  cases side <;> cases other
  · exact written
  · exact every .sell
  · exact every .buy
  · exact written

end Every

namespace LevelRule

variable {holds : Nat → FlatLevel → Prop} (rule : LevelRule holds)

include rule

theorem start : EveryLevel holds empty := by
  intro side slot
  cases side
  · exact rule.cleared slot
  · exact rule.cleared slot

theorem clearLevel (every : EverySide holds bookSide) (slot : Nat) (level : FlatLevel) :
    EverySide holds (ContiguousStore.clearLevel (bookSide.setLevel slot level) slot) := by
  rw [clearLevel_setLevel]
  exact every.setLevel (rule.cleared slot)

theorem matchAgainstStep (oppositeIsBid : Bool) {walk next : Walk}
    (taken : ContiguousStore.matchAgainstStep oppositeIsBid walk = some next)
    (every : EverySide holds walk.opposite) : EverySide holds next.opposite := by
  simp only [ContiguousStore.matchAgainstStep] at taken
  split at taken
  · cases taken
  · split at taken
    · cases taken
    · split at taken
      · cases taken
      · split at taken
        · cases taken
          exact rule.clearLevel every _ _
        · cases taken
          exact every.setLevel (rule.compacted _ _ _ _ (fillLevel_length _ _ _ _) (every _))

section Calls

variable {store : ContiguousStore} (every : EveryLevel holds store)

include every

theorem matchIncoming (id : OrderId) (side : Side) (limit : Price) (isMarket : Bool)
    (quantity : Quantity) :
    EveryLevel holds (Qsl.matchIncoming store id side limit isMarket quantity
      (fun store => store.contains id) ContiguousStore.matchOpposite).1 := by
  rw [Qsl.matchIncoming]
  split
  · exact every
  · exact every.replace side.opposite _ (WhileLoop.run_invariant
      (fun walk : Walk => EverySide holds walk.opposite)
      (fun _ _ taken kept => rule.matchAgainstStep _ taken kept) (every side.opposite) _)

theorem removeResting (loc : Locator) : EveryLevel holds (store.removeResting loc) := by
  simp only [ContiguousStore.removeResting]
  split
  · exact every.replace loc.side store.index (rule.clearLevel (every loc.side) _ _)
  · apply every.replace loc.side
    apply (every loc.side).setLevel
    apply rule.compacted _ _ _ _ _ (every loc.side _)
    split
    · exact length_modify ..
    · exact length_modify ..

theorem cancel (id : OrderId) : EveryLevel holds (store.cancel id).1 := by
  rw [ContiguousStore.cancel]
  split
  · exact every
  · rename_i loc _
    have erased : EveryLevel holds { store with index := store.index.erase id } := every
    exact rule.removeResting erased loc

end Calls

variable {holds' : Nat → FlatLevel → Prop}
  (weaker : ∀ slot level, holds slot level → holds' slot level)
variable (pushed : ∀ slot level order, order.isLive = true → holds slot level →
  holds' slot ⟨level.orders ++ [order], level.head, level.alive + 1⟩)
variable {store : ContiguousStore} (every : EveryLevel holds store)

include weaker pushed every

theorem addLimit (input : LimitInput) : EveryLevel holds' (store.addLimit input).1 := by
  have matched := rule.matchIncoming every input.id input.side input.price false input.quantity
  simp only [ContiguousStore.addLimit]
  split
  · exact fun side slot => weaker _ _ (every side slot)
  · split
    · rename_i rests
      rw [ContiguousStore.rest]
      split
      · exact fun side slot => weaker _ _ (matched side slot)
      · refine EveryLevel.replace (fun side slot => weaker _ _ (matched side slot)) input.side _ ?_
        apply EverySide.setLevel (fun slot => weaker _ _ (matched input.side slot))
        exact pushed _ _ _ (FlatOrder.isLive_iff.mpr (shouldRestLimit_positive rests))
          (matched input.side _)
    · exact fun side slot => weaker _ _ (matched side slot)

/-- A call keeps such a property, up to what an entry more makes of it. -/
theorem apply (op : BookOp) : EveryLevel holds' (store.apply op).1 := by
  have weaken : ∀ {store}, EveryLevel holds store → EveryLevel holds' store :=
    fun every side slot => weaker _ _ (every side slot)
  cases op with
  | addLimit id side price quantity tif => exact rule.addLimit weaker pushed every _
  | addMarket id side quantity => exact weaken (rule.matchIncoming every id side 0 true quantity)
  | cancel id => exact weaken (rule.cancel every id)
  | modify id newPrice newQuantity =>
    change EveryLevel holds' (store.modify id newPrice newQuantity).1
    rw [ContiguousStore.modify]
    split
    · exact weaken every
    · rename_i loc _
      split
      · exact weaken every
      · split
        · exact weaken (rule.cancel every id)
        · rename_i positive
          split
          · exact weaken (every.replace loc.side store.index ((every loc.side).setLevel
              (rule.reduced _ _ loc.pos _ positive (every loc.side _))))
          · exact rule.addLimit weaker pushed (rule.cancel every id) _

end LevelRule

section Layout

variable {store : ContiguousStore}

theorem Valid.apply_any (valid : store.Valid) (op : BookOp) : (store.apply op).1.Valid := by
  cases refused : store.refuses op with
  | false => exact (valid.apply refused).valid
  | true =>
    rw [refused_unchanged refused]
    exact valid

theorem mem_located_iff {id : OrderId} {loc : Locator} :
    (id, loc) ∈ store.located ↔ inBand loc.price = true ∧
      ∃ order, store.orderAt loc = some order ∧ 0 < order.quantity ∧ order.id = id := by
  constructor
  · intro member
    obtain ⟨banded, front, flat, back, shape, place, alive, same⟩ := mem_located member
    refine ⟨banded, flat, ?_, (quantity_pos _).mpr (FlatOrder.isLive_iff.mp alive), same⟩
    rw [orderAt, shape, ← place, getElem?_append_right (Nat.le_refl _), Nat.sub_self]
    rfl
  · rintro ⟨banded, order, found, positive, rfl⟩
    have alive : order.isLive = true := FlatOrder.isLive_iff.mpr ((quantity_pos _).mp positive)
    obtain ⟨inside, same⟩ := List.getElem?_eq_some_iff.mp found
    have shape := take_append_drop loc.pos
      ((store.sideRef loc.side).levels (slotOf loc.price)).orders
    rw [drop_eq_getElem_cons inside, same] at shape
    have placed := locatedFrom_split loc.side loc.price alive 0
      (((store.sideRef loc.side).levels (slotOf loc.price)).orders.take loc.pos)
      (((store.sideRef loc.side).levels (slotOf loc.price)).orders.drop (loc.pos + 1))
    rw [shape, length_take, Nat.min_eq_left (Nat.le_of_lt inside), Nat.zero_add] at placed
    have inSide : (order.id, loc) ∈ locatedSide loc.side (store.sideRef loc.side).levels := by
      rw [locatedSide]
      apply mem_flatMap.mpr
      refine ⟨slotOf loc.price, mem_slots.mpr (slotOf_lt banded), ?_⟩
      rw [priceOf_slotOf banded, locatedLevel, placed]
      exact mem_append_right _ mem_cons_self
    exact (located_perm store loc.side).mem_iff.mpr (mem_append_left _ inSide)

/-- Live entries and tombstones make up a level. -/
theorem FlatLevel.tombstones (orders : List FlatOrder) :
    (orders.filter (fun order => order.quantity = 0)).length +
      (orders.filter FlatOrder.isLive).length = orders.length := by
  have split := length_eq_length_filter_add FlatOrder.isLive (l := orders)
  have dead : orders.filter (fun order => !order.isLive) =
      orders.filter (fun order => order.quantity = 0) := by
    apply filter_congr
    intro order _
    by_cases zero : order.quantity = 0
    · simp [FlatOrder.isLive, zero]
    · simp [FlatOrder.isLive, zero]
  rw [dead] at split
  omega

/-- What a level's counters, cursor and occupancy bit say about its vector, and the bound on the
tombstones in it. -/
structure LevelExact (bits : Bitmap.Words) (slot : Nat) (level : FlatLevel) : Prop where
  counted : level.alive = (level.orders.filter (fun order => 0 < order.quantity)).length
  marked : Bitmap.test bits slot = true ↔ 0 < level.alive
  vacant : Bitmap.test bits slot = false → level.orders = [] ∧ level.head = 0
  front : Bitmap.test bits slot = true →
    (∃ order, level.orders[level.head]? = some order ∧ 0 < order.quantity) ∧
      ∀ i order, i < level.head → level.orders[i]? = some order → order.quantity = 0
  garbage : (level.orders.filter (fun order => order.quantity = 0)).length ≤
    max level.alive (compactMinSize - 1)
  size : level.orders.length ≤ max (2 * level.alive) (2 * (compactMinSize - 1))

theorem Valid.levelExact (valid : store.Valid) (side : Side) {slot : Nat}
    (inside : slot < bandWidth) (slim : ((store.sideRef side).levels slot).Slim) :
    LevelExact (store.sideRef side).bits slot ((store.sideRef side).levels slot) := by
  have tidy := (valid.sides side).tidy slot inside
  have marked := (valid.sides side).marked slot inside
  generalize (store.sideRef side).levels slot = level at tidy marked slim
  have same : level.orders.filter (fun order => 0 < order.quantity) = level.live := by
    apply filter_congr
    intro order _
    rw [FlatOrder.isLive, decide_eq_decide]
    exact quantity_pos order.quantity
  have split := FlatLevel.tombstones level.orders
  have counted : level.alive = (level.orders.filter FlatOrder.isLive).length := tidy.counted
  have garbage : (level.orders.filter (fun order => order.quantity = 0)).length ≤
      max level.alive (compactMinSize - 1) := by
    rcases slim with allLive | few
    · rw [filter_eq_self.mpr allLive] at split
      omega
    · omega
  refine ⟨?_, ?_, ?_, ?_, garbage, by omega⟩
  · rw [same]
    exact tidy.counted
  · rw [marked, Nat.pos_iff_ne_zero]
  · intro unmarked
    apply tidy.cleared
    by_contra alive
    rw [marked.mpr alive] at unmarked
    cases unmarked
  · intro set
    obtain ⟨maker, found, alive⟩ := tidy.front (marked.mp set)
    refine ⟨⟨maker, found, (quantity_pos _).mpr (FlatOrder.isLive_iff.mp alive)⟩, ?_⟩
    intro i order before found
    exact FlatOrder.isLive_false_iff.mp (tidy.skipped i order before found)

end Layout

/-- After any calls every level of the band is exact, and the index has an entry for every live
order, which is where it leads, and no other; so a live id occurs once. -/
theorem layout_exact (ops : List BookOp) :
    let store := (Machine.run apply empty ops).1
    (∀ side, ∀ slot < bandWidth,
      LevelExact (store.sideRef side).bits slot ((store.sideRef side).levels slot)) ∧
    (∀ id loc, store.index.find? id = some loc ↔ inBand loc.price = true ∧
      ∃ order, store.orderAt loc = some order ∧ 0 < order.quantity ∧ order.id = id) ∧
    ∀ loc other order twin, inBand loc.price = true → inBand other.price = true →
      store.orderAt loc = some order → store.orderAt other = some twin →
      0 < order.quantity → 0 < twin.quantity → order.id = twin.id → loc = other := by
  intro store
  obtain ⟨valid, slim⟩ : store.Valid ∧ EveryLevel (fun _ => FlatLevel.Slim) store := by
    apply Machine.run_invariant apply
      (fun store => store.Valid ∧ EveryLevel (fun _ => FlatLevel.Slim) store) _
      ⟨valid_empty, slim_rule.start⟩
    intro store op kept
    exact ⟨kept.1.apply_any op, slim_rule.apply (fun _ _ slim => slim)
      (fun _ _ _ alive slim => slim.push alive) kept.2 op⟩
  have indexed : ∀ id loc, store.index.find? id = some loc ↔ inBand loc.price = true ∧
      ∃ order, store.orderAt loc = some order ∧ 0 < order.quantity ∧ order.id = id := by
    intro id loc
    rw [valid.indexed.find?, mem_located_iff]
  refine ⟨fun side slot inside => valid.levelExact side inside (slim side slot), indexed, ?_⟩
  intro loc other order twin banded banded' found found' positive positive' same
  have first := (indexed order.id loc).mpr ⟨banded, order, found, positive, rfl⟩
  have second := (indexed order.id other).mpr ⟨banded', twin, found', positive', same.symm⟩
  rw [first] at second
  exact Option.some.inj second

end ContiguousStore

end Qsl
