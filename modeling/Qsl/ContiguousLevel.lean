import Qsl.ContiguousStore
import Qsl.KeyIndex
import Qsl.LiveQueue
import Mathlib.Data.List.TakeWhile

/- One flat level: what its cursor and counter say about the vector, and what each
change of the vector does to the live orders and their positions. -/
namespace Qsl

open List

variable {tombstone : FlatOrder}

def FlatOrder.isLive (order : FlatOrder) : Bool := order.quantity ≠ 0

theorem FlatOrder.isLive_iff {order : FlatOrder} : order.isLive = true ↔ order.quantity ≠ 0 :=
  decide_eq_true_iff

theorem FlatOrder.isLive_false_iff {order : FlatOrder} :
    order.isLive = false ↔ order.quantity = 0 := by
  rw [← Bool.not_eq_true, isLive_iff, not_not]

namespace FlatLevel

/-- The queue without its tombstones. -/
def live (level : FlatLevel) : List FlatOrder := level.orders.filter FlatOrder.isLive

/-- Every order before the cursor is dead, the counter counts the live ones, and the
cursor points at the first of them. -/
structure Sound (level : FlatLevel) : Prop where
  skipped : ∀ i order, i < level.head → level.orders[i]? = some order → order.isLive = false
  counted : level.alive = level.live.length
  front : level.alive ≠ 0 → ∃ maker, level.orders[level.head]? = some maker ∧ maker.isLive = true

theorem Sound.alive_le {level : FlatLevel} (sound : level.Sound) :
    level.alive ≤ level.orders.length := by
  rw [sound.counted]
  exact length_filter_le _ _

/-- A level outside its fill loop: with no live order left, the vector is cleared. -/
structure Tidy (level : FlatLevel) : Prop extends Sound level where
  cleared : level.alive = 0 → level.orders = [] ∧ level.head = 0

theorem tidy_empty : Tidy ⟨[], 0, 0⟩ where
  skipped := by intro i order before; cases before
  counted := rfl
  front := fun occupied => absurd rfl occupied
  cleared := fun _ => ⟨rfl, rfl⟩

theorem Tidy.of_alive {level : FlatLevel} (sound : level.Sound) (occupied : level.alive ≠ 0) :
    level.Tidy where
  toSound := sound
  cleared := fun none => absurd none occupied

section Shape

variable {level : FlatLevel}

theorem take_dead {orders : List FlatOrder} {head : Nat}
    (skipped : ∀ i order, i < head → orders[i]? = some order → order.isLive = false) :
    ∀ order ∈ orders.take head, order.isLive = false := by
  intro order member
  obtain ⟨i, found⟩ := mem_iff_getElem?.mp member
  rw [getElem?_take] at found
  split at found
  · rename_i before
    exact skipped i order before found
  · cases found

theorem Sound.live_drop (sound : level.Sound) :
    (level.orders.drop level.head).filter FlatOrder.isLive = level.live := by
  have none : (level.orders.take level.head).filter FlatOrder.isLive = [] := by
    apply filter_eq_nil_iff.mpr
    intro order member
    rw [take_dead sound.skipped order member]
    exact Bool.false_ne_true
  have whole : (level.orders.take level.head ++ level.orders.drop level.head).filter
      FlatOrder.isLive = _ ++ _ := filter_append _ _
  rw [take_append_drop, none, nil_append] at whole
  exact whole.symm

/-- An occupied level is dead orders, then the maker at the cursor, then the rest. -/
theorem Sound.shape (sound : level.Sound) (occupied : level.alive ≠ 0) :
    ∃ front maker queued, level.orders = front ++ maker :: queued ∧ front.length = level.head ∧
      front.filter FlatOrder.isLive = [] ∧ maker.isLive = true := by
  obtain ⟨maker, found, alive⟩ := sound.front occupied
  obtain ⟨inside, same⟩ := List.getElem?_eq_some_iff.mp found
  refine ⟨level.orders.take level.head, maker, level.orders.drop (level.head + 1), ?_, ?_, ?_,
    alive⟩
  · rw [← same, ← drop_eq_getElem_cons, take_append_drop]
  · rw [length_take]
    omega
  · apply filter_eq_nil_iff.mpr
    intro order member
    rw [take_dead sound.skipped order member]
    exact Bool.false_ne_true

end Shape

section Advance

variable {orders : List FlatOrder} {head alive : Nat}

/-- Advancing the cursor finds the next live order, if any is left. -/
theorem advanceHead_sound
    (skipped : ∀ i order, i < head → orders[i]? = some order → order.isLive = false)
    (counted : alive = (orders.filter FlatOrder.isLive).length) :
    (ContiguousStore.advanceHead ⟨orders, head, alive⟩).Sound := by
  let dead := (orders.drop head).takeWhile (fun order => decide (order.quantity = 0))
  let left := (orders.drop head).dropWhile (fun order => decide (order.quantity = 0))
  have parts : dead ++ left = orders.drop head := takeWhile_append_dropWhile
  -- what lies at the cursor or after it, read through the two parts
  have beyond : ∀ i, orders[head + i]? = (dead ++ left)[i]? := by
    intro i
    rw [parts, getElem?_drop]
  have passed : ∀ i order, i < head + dead.length → orders[i]? = some order →
      order.isLive = false := by
    intro i order before found
    by_cases earlier : i < head
    · exact skipped i order earlier found
    · have place : head + (i - head) = i := by omega
      have inDead := beyond (i - head)
      rw [place, getElem?_append_left (by omega), found] at inDead
      have zero := mem_takeWhile_imp (mem_of_getElem? inDead.symm)
      exact FlatOrder.isLive_false_iff.mpr (of_decide_eq_true zero)
  refine ⟨passed, counted, ?_⟩
  intro occupied
  change ∃ maker, orders[head + dead.length]? = some maker ∧ maker.isLive = true
  rw [beyond, getElem?_append_right (Nat.le_refl _), Nat.sub_self]
  cases shape : left with
  | nil =>
    -- nothing after the cursor: then no order is live
    have none : orders.filter FlatOrder.isLive = [] := by
      apply filter_eq_nil_iff.mpr
      intro order member
      obtain ⟨i, found⟩ := mem_iff_getElem?.mp member
      have before : i < head + dead.length := by
        have inside := (List.getElem?_eq_some_iff.mp found).1
        have length := congrArg List.length parts
        rw [shape, append_nil, length_drop] at length
        omega
      rw [passed i order before found]
      exact Bool.false_ne_true
    rw [none] at counted
    exact absurd counted occupied
  | cons maker queued =>
    refine ⟨maker, rfl, ?_⟩
    have stopped := head?_dropWhile_not
      (fun order : FlatOrder => decide (order.quantity = 0)) (orders.drop head)
    have first : (orders.drop head).dropWhile (fun order => decide (order.quantity = 0)) =
        maker :: queued := shape
    rw [first] at stopped
    exact FlatOrder.isLive_iff.mpr (of_decide_eq_false stopped)

end Advance

section Change

variable {level : FlatLevel} {front back : List FlatOrder} {order : FlatOrder}

/-- A change at one position leaves the orders before the cursor dead. -/
theorem skipped_set (sound : level.Sound) (pos : Nat) (changed : FlatOrder)
    (dead : pos < level.head → changed.isLive = false) :
    ∀ i other, i < level.head → (level.orders.set pos changed)[i]? = some other →
      other.isLive = false := by
  intro i other before found
  rw [getElem?_set] at found
  split at found
  · rename_i same
    split at found
    · cases found
      exact dead (same ▸ before)
    · cases found
  · exact sound.skipped i other before found

/-- A live order lies at the cursor or after it. -/
theorem Sound.head_le (sound : level.Sound) (shape : level.orders = front ++ order :: back)
    (alive : order.isLive = true) : level.head ≤ front.length := by
  by_contra before
  have found : level.orders[front.length]? = some order := by
    rw [shape, getElem?_append_right (Nat.le_refl _), Nat.sub_self]
    rfl
  have dead := sound.skipped front.length order (by omega) found
  rw [alive] at dead
  cases dead

theorem live_split (orders : List FlatOrder) (shape : orders = front ++ order :: back)
    (alive : order.isLive = true) :
    orders.filter FlatOrder.isLive =
      front.filter FlatOrder.isLive ++ order :: back.filter FlatOrder.isLive := by
  rw [shape, filter_append, filter_cons_of_pos alive]

section

variable (sound : level.Sound) (shape : level.orders = front ++ order :: back)
  (alive : order.isLive = true)

include sound shape alive

theorem Sound.occupied : level.alive ≠ 0 := by
  have counted := sound.counted
  rw [live, live_split level.orders shape alive, length_append, length_cons] at counted
  omega

/-- A tombstone in place of a live order: one order fewer is counted. -/
theorem Sound.kill_counted (dead : tombstone.isLive = false) :
    level.alive - 1 = ((front ++ tombstone :: back).filter FlatOrder.isLive).length := by
  have counted := sound.counted
  rw [live, live_split level.orders shape alive, length_append, length_cons] at counted
  rw [filter_append, filter_cons_of_neg (by rw [dead]; exact Bool.false_ne_true),
    length_append]
  omega

/-- A tombstone at the cursor, and the cursor moved on. -/
theorem Sound.kill_front (dead : tombstone.isLive = false) :
    (ContiguousStore.advanceHead
      ⟨front ++ tombstone :: back, level.head, level.alive - 1⟩).Sound := by
  apply advanceHead_sound
  · have skipped := skipped_set sound front.length tombstone (fun _ => dead)
    rwa [shape, LiveQueue.set_middle] at skipped
  · exact sound.kill_counted shape alive dead

/-- A tombstone away from the cursor, which stays. -/
theorem Sound.kill_later (dead : tombstone.isLive = false) (apart : front.length ≠ level.head)
    (occupied : level.alive - 1 ≠ 0) :
    Sound ⟨front ++ tombstone :: back, level.head, level.alive - 1⟩ := by
  refine ⟨?_, sound.kill_counted shape alive dead, ?_⟩
  · have skipped := skipped_set sound front.length tombstone (fun _ => dead)
    rwa [shape, LiveQueue.set_middle] at skipped
  · intro _
    obtain ⟨maker, found, makerAlive⟩ := sound.front (by omega)
    refine ⟨maker, ?_, makerAlive⟩
    change (front ++ tombstone :: back)[level.head]? = some maker
    rw [← LiveQueue.set_middle front order tombstone back, ← shape, getElem?_set_ne apart]
    exact found

/-- A new quantity on a live order. -/
theorem Sound.revise {revised : FlatOrder} (kept : revised.isLive = true) :
    Sound ⟨front ++ revised :: back, level.head, level.alive⟩ := by
  have later := sound.head_le shape alive
  refine ⟨?_, ?_, ?_⟩
  · have skipped := skipped_set sound front.length revised (fun before => by omega)
    rwa [shape, LiveQueue.set_middle] at skipped
  · have counted := sound.counted
    rw [live, live_split level.orders shape alive] at counted
    rw [live, live_split _ rfl kept]
    simpa using counted
  · intro occupied
    obtain ⟨maker, found, makerAlive⟩ := sound.front occupied
    change ∃ maker, (front ++ revised :: back)[level.head]? = some maker ∧ _
    rw [← LiveQueue.set_middle front order revised back, ← shape, getElem?_set]
    split
    · rename_i same
      have inside := (List.getElem?_eq_some_iff.mp found).1
      rw [if_pos (same ▸ inside)]
      exact ⟨revised, rfl, kept⟩
    · exact ⟨maker, found, makerAlive⟩

end

/-- A new order at the back of the queue. -/
theorem Tidy.push (tidy : level.Tidy) (alive : order.isLive = true) :
    Tidy ⟨level.orders ++ [order], level.head, level.alive + 1⟩ := by
  apply Tidy.of_alive _ (Nat.succ_ne_zero _)
  refine ⟨?_, ?_, ?_⟩
  · intro i other before found
    by_cases old : i < level.orders.length
    · rw [getElem?_append_left old] at found
      exact tidy.skipped i other before found
    · -- the cursor never passes the end of the vector
      by_cases none : level.alive = 0
      · rw [(tidy.cleared none).2] at before
        cases before
      · obtain ⟨maker, inside, _⟩ := tidy.front none
        have bound := (List.getElem?_eq_some_iff.mp inside).1
        have before : i < level.head := before
        omega
  · rw [live, filter_append, filter_cons_of_pos alive, length_append, tidy.counted]
    rfl
  · intro _
    by_cases none : level.alive = 0
    · obtain ⟨vector, cursor⟩ := tidy.cleared none
      refine ⟨order, ?_, alive⟩
      change (level.orders ++ [order])[level.head]? = some order
      rw [vector, cursor]
      rfl
    · obtain ⟨maker, inside, makerAlive⟩ := tidy.front none
      refine ⟨maker, ?_, makerAlive⟩
      change (level.orders ++ [order])[level.head]? = some maker
      rw [getElem?_append_left (List.getElem?_eq_some_iff.mp inside).1]
      exact inside

/-- A vector of live orders only, read from its beginning. -/
theorem sound_compact {orders : List FlatOrder} (allLive : ∀ order ∈ orders, order.isLive = true) :
    Sound ⟨orders, 0, orders.length⟩ := by
  refine ⟨?_, ?_, ?_⟩
  · intro i other before
    cases before
  · rw [live, filter_eq_self.mpr allLive]
  · intro occupied
    obtain ⟨maker, queued, rfl⟩ := exists_cons_of_ne_nil
      (fun none : orders = [] => occupied (congrArg List.length none))
    exact ⟨maker, rfl, allLive maker mem_cons_self⟩

end Change

end FlatLevel

namespace ContiguousStore

/-- The index entries a queue is owed; its vector begins at position `start`. -/
def locatedFrom (side : Side) (price : Price) (start : Nat) (orders : List FlatOrder) :
    List (OrderId × Locator) :=
  (LiveQueue.placed FlatOrder.isLive start orders).map
    (fun entry => (entry.1.id, ⟨side, price, entry.2⟩))

def locatedLevel (side : Side) (price : Price) (level : FlatLevel) : List (OrderId × Locator) :=
  locatedFrom side price 0 level.orders

section Located

variable (side : Side) (price : Price)

theorem locatedFrom_split {order : FlatOrder} (alive : order.isLive = true) (start : Nat)
    (front back : List FlatOrder) :
    locatedFrom side price start (front ++ order :: back) =
      locatedFrom side price start front ++ (order.id, ⟨side, price, start + front.length⟩) ::
        locatedFrom side price (start + front.length + 1) back := by
  rw [locatedFrom, LiveQueue.placed_split alive, map_append, map_cons]
  rfl

theorem locatedFrom_kill {order : FlatOrder} (dead : order.isLive = false) (start : Nat)
    (front back : List FlatOrder) :
    locatedFrom side price start (front ++ order :: back) =
      locatedFrom side price start front ++
        locatedFrom side price (start + front.length + 1) back := by
  rw [locatedFrom, LiveQueue.placed_kill dead, map_append]
  rfl

theorem locatedFrom_ids (start : Nat) (orders : List FlatOrder) :
    (locatedFrom side price start orders).map Prod.fst =
      (orders.filter FlatOrder.isLive).map FlatOrder.id := by
  rw [locatedFrom, map_map, ← LiveQueue.placed_values FlatOrder.isLive start, map_map]
  rfl

theorem liveOrders_ids (orders : List FlatOrder) :
    (liveOrders side price orders).map Order.id =
      (orders.filter FlatOrder.isLive).map FlatOrder.id := by
  rw [liveOrders, map_map]
  rfl

theorem locatedFrom_dead {front : List FlatOrder} (dead : front.filter FlatOrder.isLive = [])
    (start : Nat) : locatedFrom side price start front = [] := by
  have none : (LiveQueue.placed FlatOrder.isLive start front).map Prod.fst = [] := by
    rw [LiveQueue.placed_values, dead]
  rw [locatedFrom, map_eq_nil_iff.mp none]
  rfl

theorem liveOrders_eq (orders : List FlatOrder) :
    liveOrders side price orders = (orders.filter FlatOrder.isLive).map
      (fun order => ⟨order.id, side, price, order.quantity⟩) := rfl

theorem liveOrders_split {order : FlatOrder} (alive : order.isLive = true)
    (front back : List FlatOrder) :
    liveOrders side price (front ++ order :: back) =
      liveOrders side price front ++ ⟨order.id, side, price, order.quantity⟩ ::
        liveOrders side price back := by
  rw [liveOrders_eq, filter_append, filter_cons_of_pos alive, map_append]
  rfl

theorem liveOrders_kill {order : FlatOrder} (dead : order.isLive = false)
    (front back : List FlatOrder) :
    liveOrders side price (front ++ order :: back) =
      liveOrders side price front ++ liveOrders side price back := by
  rw [liveOrders_eq, filter_append,
    filter_cons_of_neg (by rw [dead]; exact Bool.false_ne_true), map_append]
  rfl

/-- Compaction keeps the live orders and moves every index entry to the order's
place among them. -/
theorem compactStep_fold (orders : List FlatOrder) :
    ∀ (start : Nat) (kept : List FlatOrder) (index : Index) (others : List (OrderId × Locator)),
      (∀ order ∈ kept, order.isLive = true) →
      index.Indexes (locatedFrom side price 0 kept ++
        (locatedFrom side price start orders ++ others)) →
      (orders.foldl compactStep (index, kept)).2 = kept ++ orders.filter FlatOrder.isLive ∧
        (orders.foldl compactStep (index, kept)).1.Indexes
          (locatedFrom side price 0 (kept ++ orders.filter FlatOrder.isLive) ++ others) := by
  induction orders with
  | nil =>
    intro start kept index others allLive exact
    rw [filter_nil, append_nil]
    exact ⟨rfl, exact⟩
  | cons order orders ih =>
    intro start kept index others allLive exact
    rw [foldl_cons]
    cases alive : order.isLive with
    | false =>
      have skip : compactStep (index, kept) order = (index, kept) :=
        if_pos (FlatOrder.isLive_false_iff.mp alive)
      rw [skip, filter_cons_of_neg (by rw [alive]; exact Bool.false_ne_true)]
      have dropped := locatedFrom_kill side price alive start [] orders
      rw [nil_append] at dropped
      rw [dropped] at exact
      exact ih (start + 1) kept index others allLive exact
    | true =>
      have head := locatedFrom_split side price alive start [] orders
      rw [nil_append] at head
      rw [head] at exact
      -- bring the order's own entry to the front, rewrite it, and put it behind `kept`
      have front : index.Indexes ((order.id, ⟨side, price, start⟩) ::
          (locatedFrom side price 0 kept ++
            (locatedFrom side price (start + 1) orders ++ others))) :=
        exact.perm perm_middle
      have found := front.find?.mpr mem_cons_self
      have step : compactStep (index, kept) order =
          (index.insert order.id ⟨side, price, kept.length⟩, kept ++ [order]) := by
        rw [compactStep, if_neg (FlatOrder.isLive_iff.mp alive)]
        simp only [found]
      have appended := locatedFrom_split side price alive 0 kept []
      have moved : (index.insert order.id ⟨side, price, kept.length⟩).Indexes
          (locatedFrom side price 0 (kept ++ [order]) ++
            (locatedFrom side price (start + 1) orders ++ others)) := by
        rw [appended, Nat.zero_add, append_assoc]
        exact front.replace_head.perm perm_middle.symm
      have allLive' : ∀ other ∈ kept ++ [order], other.isLive = true := by
        intro other member
        rcases mem_append.mp member with old | new
        · exact allLive other old
        · rw [mem_singleton.mp new]
          exact alive
      have rest := ih (start + 1) (kept ++ [order]) _ others allLive' moved
      rw [step, filter_cons_of_pos alive,
        append_cons kept order (orders.filter FlatOrder.isLive)]
      exact rest

theorem located_drop {level : FlatLevel} (sound : level.Sound) :
    locatedLevel side price level =
      locatedFrom side price level.head (level.orders.drop level.head) := by
  have none := LiveQueue.placed_dead 0 (FlatLevel.take_dead sound.skipped)
  have parts := LiveQueue.placed_append FlatOrder.isLive 0 (level.orders.take level.head)
    (level.orders.drop level.head)
  rw [take_append_drop, none, nil_append, Nat.zero_add, length_take] at parts
  rw [locatedLevel, locatedFrom, locatedFrom, parts]
  by_cases inside : level.head ≤ level.orders.length
  · rw [Nat.min_eq_left inside]
  · rw [drop_of_length_le (by omega)]
    rfl

/-- `maybe_compact` changes neither the live orders nor what the index is owed. -/
theorem maybeCompact_sound {level : FlatLevel} (sound : level.Sound) {index : Index}
    {others : List (OrderId × Locator)}
    (exact : index.Indexes (locatedLevel side price level ++ others)) :
    (maybeCompact index level).1.Sound ∧ (maybeCompact index level).1.live = level.live ∧
      (maybeCompact index level).1.alive = level.alive ∧
      (maybeCompact index level).2.Indexes
        (locatedLevel side price (maybeCompact index level).1 ++ others) := by
  rw [maybeCompact]
  split
  · rw [located_drop side price sound] at exact
    obtain ⟨kept, moved⟩ := compactStep_fold side price (level.orders.drop level.head) level.head []
      index others (by intro order member; cases member) exact
    rw [nil_append, sound.live_drop] at kept moved
    have allLive : ∀ order ∈ level.live, order.isLive = true :=
      fun order member => (mem_filter.mp member).2
    have compacted : (compactLevel index level).1 = ⟨level.live, 0, level.live.length⟩ := by
      rw [compactLevel]
      simp only [kept, sound.counted]
    have live : FlatLevel.live ⟨level.live, 0, level.live.length⟩ = level.live :=
      filter_eq_self.mpr allLive
    rw [compacted]
    exact ⟨FlatLevel.sound_compact allLive, live, sound.counted.symm, moved⟩
  · exact ⟨sound, rfl, rfl, exact⟩

end Located

end ContiguousStore

end Qsl
