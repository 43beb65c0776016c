import Qsl.ContiguousInvariant

/- The bitmap scans read as lists: the best slot is the first occupied one, and
`for_each_occupied` visits the occupied slots best first. -/
namespace Qsl.ContiguousStore

open List

def occupied (side : Side) (bits : Bitmap.Words) : List Nat := (slots side).filter (Bitmap.test bits)

theorem occupied_length (side : Side) (bits : Bitmap.Words) :
    (occupied side bits).length < bandWidth + 1 := by
  have length : (slots side).length = bandWidth := by
    cases side
    · rw [slots, length_reverse, length_range]
    · rw [slots, length_range]
  have fewer := length_filter_le (Bitmap.test bits) (slots side)
  rw [length] at fewer
  exact Nat.lt_succ_of_le fewer

/-- The occupied slots strictly worse than `slot`. -/
def worseThan (side : Side) (bits : Bitmap.Words) (slot : Nat) : List Nat :=
  match side with
  | .buy => Bitmap.below bits slot
  | .sell => Bitmap.above bandWidth bits (slot + 1)

/-- `found` is the first of `list`, and the rest of it is worse. -/
def Leads (side : Side) (bits : Bitmap.Words) (found : Option Nat) (list : List Nat) : Prop :=
  match found with
  | none => list = []
  | some slot => list = slot :: worseThan side bits slot

section Scan

variable (bits : Bitmap.Words)

theorem leads_down (start : Nat) :
    Leads .buy bits (Bitmap.nextDown bits start) (Bitmap.below bits (start + 1)) := by
  have found := Bitmap.below_nextDown bits start
  rw [found]
  cases Bitmap.nextDown bits start <;> exact rfl

theorem leads_up {start : Nat} (inside : start ≤ bandWidth) :
    Leads .sell bits (Bitmap.nextUp bitmapWords bits start)
      (Bitmap.above bandWidth bits start) := by
  have found := Bitmap.above_nextUp bits bitmapWords inside
  change Leads .sell bits _ (Bitmap.above (bitmapWords * 64) bits start)
  rw [found]
  cases Bitmap.nextUp bitmapWords bits start <;> exact rfl

theorem bestSlot_leads (bookSide : BookSide) (side : Side) :
    Leads side bookSide.bits (bestSlot bookSide (side == .buy)) (occupied side bookSide.bits) := by
  cases side
  · have whole : occupied .buy bookSide.bits = Bitmap.below bookSide.bits (bandWidth - 1 + 1) := by
      rw [occupied, slots, Bitmap.below]
      rfl
    rw [whole]
    exact leads_down bookSide.bits (bandWidth - 1)
  · have whole : occupied .sell bookSide.bits = Bitmap.above bandWidth bookSide.bits 0 := by
      rw [occupied, slots, Bitmap.above, range_eq_range']
      rfl
    rw [whole]
    exact leads_up bookSide.bits (Nat.zero_le _)

theorem nextWorse_leads (side : Side) (slot : Nat) :
    Leads side bits (nextWorse bits (side == .buy) slot) (worseThan side bits slot) := by
  cases side
  · change Leads .buy bits (if slot = 0 then none else Bitmap.nextDown bits (slot - 1)) _
    cases slot with
    | zero => exact rfl
    | succ start => exact leads_down bits start
  · change Leads .sell bits (if slot + 1 ≥ bandWidth then none
      else Bitmap.nextUp bitmapWords bits (slot + 1)) (Bitmap.above bandWidth bits (slot + 1))
    split
    · rename_i beyond
      have none : bandWidth - (slot + 1) = 0 := by omega
      change Bitmap.above bandWidth bits (slot + 1) = []
      rw [Bitmap.above, none]
      rfl
    · rename_i inside
      exact leads_up bits (by omega)

end Scan

/-- A side read through its occupied slots only. -/
theorem SideValid.orders_occupied {bookSide : BookSide} (valid : SideValid bookSide) (side : Side) :
    sideOrders side bookSide.levels = (occupied side bookSide.bits).flatMap
      (fun slot => liveOrders side (priceOf slot) (bookSide.levels slot).orders) := by
  have vacant : ∀ slot ∈ slots side, Bitmap.test bookSide.bits slot = false →
      liveOrders side (priceOf slot) (bookSide.levels slot).orders = [] := by
    intro slot member unmarked
    have inside := mem_slots.mp member
    have none : (bookSide.levels slot).alive = 0 := by
      by_contra alive
      rw [(valid.marked slot inside).mpr alive] at unmarked
      cases unmarked
    rw [((valid.tidy slot inside).cleared none).1]
    rfl
  rw [sideOrders, occupied]
  generalize slots side = list at vacant
  induction list with
  | nil => rfl
  | cons slot worse ih =>
    have rest := ih (fun other member => vacant other (mem_cons_of_mem _ member))
    cases marked : Bitmap.test bookSide.bits slot with
    | true => rw [filter_cons_of_pos marked, flatMap_cons, flatMap_cons, rest]
    | false =>
      rw [filter_cons_of_neg (by simp [marked]), flatMap_cons,
        vacant slot mem_cons_self marked, nil_append, rest]

section Visit

variable {σ : Type} (fn : Nat → FlatLevel → σ → σ × Bool) (levels : Nat → FlatLevel)

/-- Apply the visitor along a list of slots until it answers false. -/
def visit : List Nat → σ → σ
  | [], captured => captured
  | slot :: worse, captured =>
    let (captured', more) := fn slot (levels slot) captured
    if more then visit worse captured' else captured'

theorem forEachOccupied_run (side : Side) (bookSide : BookSide) (list : List Nat) :
    ∀ (bound : Nat) (found : Option Nat) (captured : σ), list.length < bound →
      Leads side bookSide.bits found list →
      WhileLoop.run (forEachOccupiedStep bookSide (side == .buy) fn) bound (found, captured) =
        (none, visit fn bookSide.levels list captured) := by
  induction list with
  | nil =>
    intro bound found captured enough leads
    cases found with
    | none => rw [WhileLoop.run_stop _ _ _ rfl]; rfl
    | some slot => cases leads
  | cons slot worse ih =>
    intro bound found captured enough leads
    cases found with
    | none => cases leads
    | some first =>
      obtain ⟨rfl, rest⟩ := List.cons.inj leads
      obtain ⟨fewer, rfl⟩ : ∃ fewer, bound = fewer + 1 := ⟨bound - 1, by omega⟩
      rcases answer : fn slot (bookSide.levels slot) captured with ⟨captured', more⟩
      have taken : forEachOccupiedStep bookSide (side == .buy) fn (some slot, captured) =
          some (if more then nextWorse bookSide.bits (side == .buy) slot else none,
            captured') := by
        simp only [forEachOccupiedStep, answer]
      rw [WhileLoop.run_step _ _ _ _ taken, visit, answer]
      cases more with
      | true =>
        have next := nextWorse_leads bookSide.bits side slot
        rw [← rest] at next
        exact ih fewer _ _ (by simpa using enough) next
      | false =>
        rw [WhileLoop.run_stop _ _ _ rfl]
        rfl

theorem forEachOccupied_eq (side : Side) (bookSide : BookSide) (captured : σ) :
    forEachOccupied bookSide (side == .buy) fn captured =
      visit fn bookSide.levels (occupied side bookSide.bits) captured := by
  rw [forEachOccupied, forEachOccupied_run fn side bookSide _ _ _ captured
    (occupied_length side bookSide.bits) (bestSlot_leads bookSide side)]

/-- A visitor that only appends collects what it appends. -/
theorem visit_append {α : Type} (part : Nat → FlatLevel → List α) (list : List Nat)
    (collected : List α) :
    visit (fun slot level out => (out ++ part slot level, true)) levels list collected =
      collected ++ list.flatMap (fun slot => part slot (levels slot)) := by
  induction list generalizing collected with
  | nil => rw [visit, flatMap_nil, append_nil]
  | cons slot worse ih =>
    rw [visit, flatMap_cons, ← append_assoc]
    exact ih _

/-- The visitor that also notes the slots it is shown. -/
def noting (slot : Nat) (level : FlatLevel) (state : σ × List Nat) : (σ × List Nat) × Bool :=
  let (captured, more) := fn slot level state.1
  ((captured, state.2 ++ [slot]), more)

/-- The slots shown are those at the front of the list, up to the first refusal. -/
theorem visit_noting (list : List Nat) (captured : σ) (noted : List Nat) :
    (visit (noting fn) levels list (captured, noted)).1 = visit fn levels list captured ∧
      ∃ shown, (visit (noting fn) levels list (captured, noted)).2 = noted ++ shown ∧
        shown <+: list ∧
        ((∀ slot level captured, (fn slot level captured).2 = true) → shown = list) := by
  induction list generalizing captured noted with
  | nil => exact ⟨rfl, [], (append_nil _).symm, nil_prefix, fun _ => rfl⟩
  | cons slot worse ih =>
    rcases answer : fn slot (levels slot) captured with ⟨captured', more⟩
    have taken : noting fn slot (levels slot) (captured, noted) =
        ((captured', noted ++ [slot]), more) := by
      simp only [noting, answer]
    rw [visit, visit, answer, taken]
    cases more with
    | true =>
      obtain ⟨same, shown, noticed, front, whole⟩ := ih captured' (noted ++ [slot])
      refine ⟨same, slot :: shown, ?_, (prefix_cons_inj slot).mpr front, ?_⟩
      · exact noticed.trans (by rw [append_assoc, singleton_append])
      · intro always
        rw [whole always]
    | false =>
      refine ⟨rfl, [slot], rfl, ⟨worse, rfl⟩, ?_⟩
      intro always
      have refused := always slot (levels slot) captured
      rw [answer] at refused
      cases refused

end Visit

theorem mem_occupied {side : Side} {bits : Bitmap.Words} {slot : Nat} :
    slot ∈ occupied side bits ↔ slot ∈ Bitmap.members bandWidth bits := by
  rw [occupied, mem_filter, mem_slots]
  rfl

/-- Strictly worse slots: lower for bids, higher for asks. -/
def WorseSlot : Side → Nat → Nat → Prop
  | .buy, slot, worse => worse < slot
  | .sell, slot, worse => slot < worse

theorem occupied_sorted (side : Side) (bits : Bitmap.Words) :
    (occupied side bits).Pairwise (WorseSlot side) := by
  apply List.Pairwise.filter
  cases side
  · exact pairwise_reverse.mpr pairwise_lt_range
  · exact pairwise_lt_range

/-- The two scans answer the nearest set slot without leaving the array or shifting too far, and
`for_each_occupied` shows its visitor the set slots, each once, from the best on. -/
theorem scans_exact (bits : Bitmap.Words) :
    (∀ slot < bandWidth,
      Bitmap.checkedNextUp bitmapWords bits slot = .ok (Bitmap.nextUp bitmapWords bits slot) ∧
      Bitmap.checkedNextDown bitmapWords bits slot = .ok (Bitmap.nextDown bits slot) ∧
      (∀ found, Bitmap.nextUp bitmapWords bits slot = some found ↔
        IsLeast (Bitmap.members bandWidth bits ∩ Set.Ici slot) found) ∧
      (Bitmap.nextUp bitmapWords bits slot = none ↔
        Bitmap.members bandWidth bits ∩ Set.Ici slot = ∅) ∧
      (∀ found, Bitmap.nextDown bits slot = some found ↔
        IsGreatest (Bitmap.members bandWidth bits ∩ Set.Iic slot) found) ∧
      (Bitmap.nextDown bits slot = none ↔
        Bitmap.members bandWidth bits ∩ Set.Iic slot = ∅)) ∧
    ∀ side, ∃ order : List Nat, order.Pairwise (WorseSlot side) ∧
      (∀ slot, slot ∈ order ↔ slot ∈ Bitmap.members bandWidth bits) ∧
      ∀ (levels : Nat → FlatLevel) (σ : Type) (fn : Nat → FlatLevel → σ → σ × Bool) (captured : σ),
        let bookSide : BookSide := ⟨levels, bits⟩
        let isBid := side == .buy
        (WhileLoop.run (forEachOccupiedStep bookSide isBid fn) (bandWidth + 1)
          (bestSlot bookSide isBid, captured)).1 = none ∧
        let noted := forEachOccupied bookSide isBid (noting fn) (captured, [])
        noted.1 = forEachOccupied bookSide isBid fn captured ∧ noted.2 <+: order ∧
          ((∀ slot level captured, (fn slot level captured).2 = true) → noted.2 = order) := by
  refine ⟨?_, ?_⟩
  · intro slot inside
    have within : slot < bitmapWords * 64 := inside
    have upTo := Nat.le_of_lt within
    exact ⟨Bitmap.checkedNextUp_eq bits, Bitmap.checkedNextDown_eq bits within,
      fun found => Bitmap.nextUp_least upTo, Bitmap.nextUp_none upTo,
      fun found => Bitmap.nextDown_greatest within, Bitmap.nextDown_none within⟩
  · intro side
    refine ⟨occupied side bits, occupied_sorted side bits, fun slot => mem_occupied, ?_⟩
    intro levels σ fn captured bookSide isBid
    refine ⟨?_, ?_⟩
    · rw [forEachOccupied_run fn side bookSide _ _ _ captured (occupied_length side bits)
        (bestSlot_leads bookSide side)]
    · obtain ⟨same, shown, noticed, front, whole⟩ :=
        visit_noting fn levels (occupied side bits) captured []
      intro noted
      have visited : noted = visit (noting fn) levels (occupied side bits) (captured, []) :=
        forEachOccupied_eq (noting fn) side bookSide (captured, [])
      rw [nil_append] at noticed
      rw [visited, forEachOccupied_eq fn side bookSide captured, noticed]
      exact ⟨same, front, whole⟩

end Qsl.ContiguousStore
