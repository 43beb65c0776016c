import Qsl.ContiguousScan
import Qsl.MatchingLoops

namespace Qsl.ContiguousStore

open List

/-- A level during its fill loop: its live orders, and an index that lists them
beside `others`. -/
structure FillMeans (side : Side) (price : Price) (others : List (OrderId × Locator))
    (fill : LevelFill) (orders : List Order) : Prop where
  orders : liveOrders side price fill.level.orders = orders
  sound : fill.level.Sound
  index : fill.index.Indexes (locatedLevel side price fill.level ++ others)

section Fill

variable {side : Side} {price : Price} {others : List (OrderId × Locator)} {fill : LevelFill}
variable {orders : List Order}

theorem FillMeans.alive_eq (means : FillMeans side price others fill orders) :
    fill.level.alive = orders.length := by
  rw [← means.orders, liveOrders_eq, length_map]
  exact means.sound.counted

theorem FillMeans.priced (means : FillMeans side price others fill orders) :
    ∀ order ∈ orders, order.side = side ∧ order.price = price := by
  intro order member
  rw [← means.orders, liveOrders_eq] at member
  obtain ⟨flat, _, rfl⟩ := mem_map.mp member
  exact ⟨rfl, rfl⟩

section

variable {maker : Order} {queued : List Order}
  (means : FillMeans side price others fill (maker :: queued))

include means

/-- The maker at the cursor is the first order of the level. -/
theorem FillMeans.shape :
    ∃ front flat back, fill.level.orders = front ++ flat :: back ∧
      front.filter FlatOrder.isLive = [] ∧ flat.isLive = true ∧
      maker = ⟨flat.id, side, price, flat.quantity⟩ ∧ liveOrders side price back = queued ∧
      fill.level.orders[fill.level.head]? = some flat ∧
      ∀ order, fill.level.orders.set fill.level.head order = front ++ order :: back := by
  have occupied : fill.level.alive ≠ 0 := by
    rw [means.alive_eq]
    exact Nat.succ_ne_zero _
  obtain ⟨front, flat, back, parts, cursor, dead, alive⟩ := means.sound.shape occupied
  have listed := means.orders
  rw [parts, liveOrders_split side price alive, liveOrders_eq side price front, dead] at listed
  obtain ⟨first, rest⟩ := List.cons.inj listed
  refine ⟨front, flat, back, parts, dead, alive, first.symm, rest, ?_, ?_⟩
  · rw [parts, ← cursor, getElem?_append_right (Nat.le_refl _), Nat.sub_self]
    rfl
  · intro order
    rw [parts, ← cursor, LiveQueue.set_middle]

/-- Using up the maker at the cursor. -/
theorem FillMeans.exhaust (exhausted : maker.quantity - min fill.ctx.quantity maker.quantity = 0) :
    (fillFrontOrder price fill).ctx = (fillMaker fill.ctx maker.id maker.quantity price).1 ∧
      FillMeans side price others (fillFrontOrder price fill) queued := by
  obtain ⟨front, flat, back, parts, dead, alive, rfl, rest, found, written⟩ := means.shape
  have used : flat.quantity - min fill.ctx.quantity flat.quantity = 0 := exhausted
  have tombstone : FlatOrder.isLive ⟨flat.id, 0⟩ = false := rfl
  have filled : fillFrontOrder price fill =
      ⟨advanceHead ⟨front ++ ⟨flat.id, 0⟩ :: back, fill.level.head, fill.level.alive - 1⟩,
        fill.index.erase flat.id, (fillMaker fill.ctx flat.id flat.quantity price).1⟩ := by
    simp only [fillFrontOrder, found, fillMaker, used, BEq.rfl, if_true, written]
  rw [filled]
  refine ⟨rfl, ?_, means.sound.kill_front parts alive tombstone, ?_⟩
  · change liveOrders side price (front ++ ⟨flat.id, 0⟩ :: back) = queued
    rw [liveOrders_kill side price tombstone, liveOrders_eq side price front, dead, rest]
    rfl
  · have listed := means.index
    rw [locatedLevel, parts, locatedFrom_split side price alive,
      locatedFrom_dead side price dead] at listed
    change (fill.index.erase flat.id).Indexes
      (locatedFrom side price 0 (front ++ ⟨flat.id, 0⟩ :: back) ++ others)
    rw [locatedFrom_kill side price tombstone, locatedFrom_dead side price dead]
    exact OrderedMap.Indexes.erase_head listed

/-- A fill that leaves the maker at the cursor resting. -/
theorem FillMeans.survive (survives : maker.quantity - min fill.ctx.quantity maker.quantity ≠ 0) :
    (fillFrontOrder price fill).ctx = (fillMaker fill.ctx maker.id maker.quantity price).1 ∧
      FillMeans side price others (fillFrontOrder price fill)
        ({ maker with quantity := maker.quantity - min fill.ctx.quantity maker.quantity } ::
          queued) := by
  obtain ⟨front, flat, back, parts, dead, alive, rfl, rest, found, written⟩ := means.shape
  let revised : FlatOrder := ⟨flat.id, flat.quantity - min fill.ctx.quantity flat.quantity⟩
  have left : flat.quantity - min fill.ctx.quantity flat.quantity ≠ 0 := survives
  have kept : revised.isLive = true := FlatOrder.isLive_iff.mpr left
  have filled : fillFrontOrder price fill =
      ⟨⟨front ++ revised :: back, fill.level.head, fill.level.alive⟩, fill.index,
        (fillMaker fill.ctx flat.id flat.quantity price).1⟩ := by
    simp only [fillFrontOrder, found, fillMaker, beq_eq_false_iff_ne.mpr left,
      Bool.false_eq_true, if_false, written, revised]
  rw [filled]
  refine ⟨rfl, ?_, means.sound.revise parts alive kept, ?_⟩
  · change liveOrders side price (front ++ revised :: back) = _
    rw [liveOrders_split side price kept, liveOrders_eq side price front, dead, rest]
    rfl
  · have listed := means.index
    rw [locatedLevel, parts, locatedFrom_split side price alive] at listed
    change fill.index.Indexes (locatedFrom side price 0 (front ++ revised :: back) ++ others)
    rw [locatedFrom_split side price kept]
    exact listed

end

end Fill

theorem fillSpec (side : Side) (price : Price) (others : List (OrderId × Locator)) :
    FillLoopSpec LevelFill.ctx (fillLevelStep price) price (FillMeans side price others) where
  priced := fun _ _ means order member => (means.priced order member).2
  stop := by
    intro fill orders means stopped
    rw [fillLevelStep, if_neg]
    intro ⟨positive, occupied⟩
    rw [means.alive_eq] at occupied
    apply stopped.elim positive
    intro none
    rw [none] at occupied
    cases occupied
  fill := by
    intro fill maker queued means positive
    have occupied : fill.level.alive > 0 := by
      rw [means.alive_eq]
      exact Nat.succ_pos _
    refine ⟨fillFrontOrder price fill, if_pos ⟨positive, occupied⟩, ?_, ?_, ?_⟩
    · by_cases exhausted : maker.quantity - min fill.ctx.quantity maker.quantity = 0
      · exact (means.exhaust exhausted).1
      · exact (means.survive exhausted).1
    · exact fun exhausted => (means.exhaust exhausted).2
    · exact fun survives => (means.survive survives).2

/-- The level fill as a whole, for whatever else the index lists. -/
theorem fillLevel_means {side : Side} {price : Price} {level : FlatLevel} {index : Index}
    {ctx : MatchContext} (sound : level.Sound) (crossing : ctx.taker.crosses price = true)
    {others : List (OrderId × Locator)}
    (exact : index.Indexes (locatedLevel side price level ++ others)) :
    let swept := sweep ctx.taker (liveOrders side price level.orders) ctx.quantity
    (fillLevel level price index ctx).ctx = ctx.after swept ∧
      FillMeans side price others (fillLevel level price index ctx) swept.left := by
  apply (fillSpec side price others).run _ _ ⟨level, index, ctx⟩ _ ⟨rfl, sound, exact⟩ crossing
  rw [liveOrders_eq, length_map]
  exact Nat.lt_succ_of_le (length_filter_le _ _)

/-- The walked side and the index during a match. `own` lists the matching side's
entries, which the walk leaves alone. -/
structure WalkMeans (side : Side) (own : List (OrderId × Locator)) (walk : Walk)
    (buckets : List (Price × List Order)) : Prop where
  valid : SideValid walk.opposite
  buckets : buckets = (occupied side walk.opposite.bits).map (fun slot =>
    (priceOf slot, liveOrders side (priceOf slot) (walk.opposite.levels slot).orders))
  index : walk.index.Indexes (locatedSide side walk.opposite.levels ++ own)

section Walk

variable {side : Side} {own : List (OrderId × Locator)} {walk : Walk}

/-- The first bucket is the level of the best slot. -/
theorem WalkMeans.best {price : Price} {orders : List Order} {others : List (Price × List Order)}
    (means : WalkMeans side own walk ((price, orders) :: others)) :
    ∃ slot worse, bestSlot walk.opposite (side == .buy) = some slot ∧
      occupied side walk.opposite.bits = slot :: worse ∧ slot < bandWidth ∧
      (walk.opposite.levels slot).alive ≠ 0 ∧ price = priceOf slot ∧
      orders = liveOrders side (priceOf slot) (walk.opposite.levels slot).orders ∧
      others = worse.map (fun slot =>
        (priceOf slot, liveOrders side (priceOf slot) (walk.opposite.levels slot).orders)) := by
  have leads := bestSlot_leads walk.opposite side
  have shape := means.buckets
  cases found : bestSlot walk.opposite (side == .buy) with
  | none =>
    rw [found] at leads
    rw [leads] at shape
    cases shape
  | some slot =>
    rw [found] at leads
    have listed : slot ∈ occupied side walk.opposite.bits := by
      rw [leads]
      exact mem_cons_self
    obtain ⟨known, marked⟩ := mem_filter.mp listed
    have inside := mem_slots.mp known
    rw [leads] at shape
    simp only [map_cons, List.cons.injEq, Prod.mk.injEq] at shape
    obtain ⟨⟨first, level⟩, rest⟩ := shape
    exact ⟨slot, _, rfl, leads, inside, (means.valid.marked slot inside).mp marked, first, level,
      rest⟩

theorem occupied_clear {bits : Bitmap.Words} {slot : Nat} {worse : List Nat}
    (shape : occupied side bits = slot :: worse) :
    occupied side (Bitmap.clear bits slot) = worse := by
  have distinct : (slot :: worse).Nodup := by
    rw [← shape]
    exact (slots_nodup side).filter _
  have refined : occupied side (Bitmap.clear bits slot) =
      (occupied side bits).filter (fun other => !decide (other = slot)) := by
    rw [occupied, occupied, filter_filter]
    apply filter_congr
    intro other _
    exact Bitmap.test_clear bits slot other
  rw [refined, shape, filter_cons_of_neg (by simp)]
  apply filter_eq_self.mpr
  intro other member
  have differ : other ≠ slot := by
    intro same
    exact (nodup_cons.mp distinct).1 (same ▸ member)
  simpa using differ

/-- Other levels keep their buckets when one level is written. -/
theorem buckets_setLevel (bookSide : BookSide) {slot : Nat} {worse : List Nat} (level : FlatLevel)
    (apart : slot ∉ worse) :
    worse.map (fun other => (priceOf other,
        liveOrders side (priceOf other) ((bookSide.setLevel slot level).levels other).orders)) =
      worse.map (fun other =>
        (priceOf other, liveOrders side (priceOf other) (bookSide.levels other).orders)) := by
  apply map_congr_left
  intro other member
  have differ : other ≠ slot := by
    intro same
    exact apart (same ▸ member)
  rw [setLevel_other _ _ differ]

/-- Filling the best level: cleared when it is used up, compacted otherwise. -/
theorem WalkMeans.fill {price : Price} {orders : List Order} {others : List (Price × List Order)}
    (means : WalkMeans side own walk ((price, orders) :: others)) (positive : walk.ctx.quantity ≠ 0)
    (crossing : walk.ctx.taker.crosses price = true) :
    let swept := sweep walk.ctx.taker orders walk.ctx.quantity
    ∃ next, matchAgainstStep (side == .buy) walk = some next ∧
      next.ctx = walk.ctx.after swept ∧
      (swept.left = [] → WalkMeans side own next others) ∧
      (swept.left ≠ [] → WalkMeans side own next ((price, swept.left) :: others)) := by
  obtain ⟨slot, worse, best, shape, inside, alive, rfl, rfl, rfl⟩ := means.best
  have sound := (means.valid.tidy slot inside).toSound
  have apart : slot ∉ worse := by
    have distinct : (slot :: worse).Nodup := by
      rw [← shape]
      exact (slots_nodup side).filter _
    exact (nodup_cons.mp distinct).1
  obtain ⟨rest, singled⟩ := index_level inside means.index
  let fill := fillLevel (walk.opposite.levels slot) (priceOf slot) walk.index walk.ctx
  have filled : ∀ others, walk.index.Indexes
      (locatedLevel side (priceOf slot) (walk.opposite.levels slot) ++ others) →
      fill.ctx = walk.ctx.after (sweep walk.ctx.taker
        (liveOrders side (priceOf slot) (walk.opposite.levels slot).orders) walk.ctx.quantity) ∧
      FillMeans side (priceOf slot) others fill (sweep walk.ctx.taker
        (liveOrders side (priceOf slot) (walk.opposite.levels slot).orders)
          walk.ctx.quantity).left := fun _ exact => fillLevel_means sound crossing exact
  obtain ⟨recorded, meansFill⟩ := filled rest singled
  have counted := meansFill.alive_eq
  have step : matchAgainstStep (side == .buy) walk =
      if fill.level.alive = 0 then
        some ⟨clearLevel (walk.opposite.setLevel slot fill.level) slot, fill.index, fill.ctx⟩
      else some ⟨walk.opposite.setLevel slot (maybeCompact fill.index fill.level).1,
        (maybeCompact fill.index fill.level).2, fill.ctx⟩ := by
    rw [MatchContext.taker_crosses] at crossing
    simp only [matchAgainstStep, if_neg positive, best, crossing, Bool.not_true, Bool.false_eq_true,
      if_false]
    rfl
  by_cases used : (sweep walk.ctx.taker
      (liveOrders side (priceOf slot) (walk.opposite.levels slot).orders) walk.ctx.quantity).left = []
  · rw [used] at counted meansFill
    have empty : fill.level.alive = 0 := counted
    rw [if_pos empty] at step
    refine ⟨_, step, recorded, fun _ => ?_, fun remains => absurd used remains⟩
    refine ⟨means.valid.clearLevel fill.level, ?_, ?_⟩
    · simp only [clearLevel_setLevel]
      rw [occupied_clear shape]
      exact (buckets_setLevel walk.opposite ⟨[], 0, 0⟩ apart).symm
    · simp only [clearLevel_setLevel]
      apply index_frame walk.opposite inside means.index
      intro others exact
      have listed := (filled others exact).2.index
      have dead : fill.level.orders.filter FlatOrder.isLive = [] :=
        map_eq_nil_iff.mp meansFill.orders
      rw [locatedLevel, locatedFrom_dead _ _ dead] at listed
      exact listed
  · have remains : fill.level.alive ≠ 0 := by
      rw [counted]
      exact fun none => used (eq_nil_of_length_eq_zero none)
    rw [if_neg remains] at step
    refine ⟨_, step, recorded, fun none => absurd none used, fun _ => ?_⟩
    obtain ⟨sound', live, kept, _⟩ :=
      maybeCompact_sound side (priceOf slot) meansFill.sound meansFill.index
    refine ⟨means.valid.keep sound' alive (kept ▸ remains), ?_, ?_⟩
    · change _ = (occupied side walk.opposite.bits).map _
      rw [shape, map_cons, buckets_setLevel walk.opposite _ apart, setLevel_same,
        ← meansFill.orders, liveOrders_eq, liveOrders_eq]
      exact congrArg (fun orders => (priceOf slot, List.map _ orders) :: _) live.symm
    · apply index_frame walk.opposite inside means.index
      intro others exact
      have listed := (filled others exact).2
      exact (maybeCompact_sound side (priceOf slot) listed.sound listed.index).2.2.2

end Walk

theorem walkSpec (side : Side) (own : List (OrderId × Locator)) :
    LevelLoopSpec Walk.ctx (matchAgainstStep (side == .buy)) (WalkMeans side own) where
  filled := by
    intro walk filled
    rw [matchAgainstStep, if_pos filled]
  empty := by
    intro walk means
    have leads := bestSlot_leads walk.opposite side
    have none : occupied side walk.opposite.bits = [] := map_eq_nil_iff.mp means.buckets.symm
    cases found : bestSlot walk.opposite (side == .buy) with
    | none =>
      rw [matchAgainstStep, found]
      split <;> rfl
    | some slot =>
      rw [found, none] at leads
      cases leads
  bucket := by
    intro walk price orders others means
    obtain ⟨slot, _, _, _, inside, alive, rfl, rfl, _⟩ := means.best
    have counted := (means.valid.tidy slot inside).counted
    refine ⟨?_, ?_⟩
    · intro none
      have dead : (walk.opposite.levels slot).live = [] := map_eq_nil_iff.mp none
      rw [dead] at counted
      exact alive counted
    · intro order member
      obtain ⟨flat, _, rfl⟩ := mem_map.mp member
      rfl
  apart := by
    intro walk price orders others means apart
    obtain ⟨slot, _, best, _, _, _, rfl, _, _⟩ := means.best
    rw [MatchContext.taker_crosses] at apart
    rw [matchAgainstStep, best]
    simp [apart]
  fill := fun _ _ _ _ means positive crossing => means.fill positive crossing

/-- Matching leaves a valid store that holds what the sweep leaves. -/
theorem Valid.matchOpposite {store : ContiguousStore} (valid : store.Valid) {side : Side}
    {ctx : MatchContext} (sided : ctx.taker.side = side) :
    let swept := store.view.matchTaker ctx.taker ctx.quantity
    (ContiguousStore.matchOpposite side store ctx).2 = ctx.after swept ∧
      (ContiguousStore.matchOpposite side store ctx).1.Valid ∧
      (ContiguousStore.matchOpposite side store ctx).1.view =
        store.view.setSide side.opposite swept.left := by
  let start : Walk := ⟨store.sideRef side.opposite, store.index, ctx⟩
  have polarity : (!(side == .buy)) = (side.opposite == .buy) := by cases side <;> rfl
  have opposite := valid.sides side.opposite
  have listed := valid.indexed_side side.opposite
  rw [Side.opposite_opposite] at listed
  have means : WalkMeans side.opposite (locatedSide side (store.sideRef side).levels) start _ :=
    ⟨opposite, rfl, listed⟩
  have short : ((occupied side.opposite start.opposite.bits).map (fun slot => (priceOf slot,
      liveOrders side.opposite (priceOf slot) (start.opposite.levels slot).orders))).length <
        bandWidth + 1 := by
    rw [length_map]
    exact occupied_length _ _
  obtain ⟨recorded, remaining, final, left⟩ :=
    (walkSpec side.opposite _).run _ (bandWidth + 1) start short means
  have whole : ((occupied side.opposite start.opposite.bits).map (fun slot => (priceOf slot,
      liveOrders side.opposite (priceOf slot) (start.opposite.levels slot).orders))).flatMap
        Prod.snd = store.view.side ctx.taker.side.opposite := by
    rw [sided, view_side, opposite.orders_occupied, flatMap_map]
  rw [whole] at recorded left
  have kept : sideOrders side.opposite
      (matchAgainst (side.opposite == .buy) start).opposite.levels =
        (store.view.matchTaker ctx.taker ctx.quantity).left := by
    have final : WalkMeans side.opposite _ (matchAgainst (side.opposite == .buy) start) _ := final
    rw [Book.matchTaker, final.valid.orders_occupied]
    rw [final.buckets, flatMap_map] at left
    exact left
  rw [ContiguousStore.matchOpposite, polarity]
  refine ⟨recorded, ?_, ?_⟩
  · apply valid.replace side.opposite final.valid
    · rw [Side.opposite_opposite]
      exact final.index
    · change (store.view.setSide side.opposite (sideOrders side.opposite
        (matchAgainst (side.opposite == .buy) start).opposite.levels)).WellFormed
      rw [kept, ← sided]
      exact valid.book.matched ctx.taker ctx.quantity
  · exact (view_setSideRef store side.opposite _ _).trans (congrArg _ kept)

end Qsl.ContiguousStore
