import Qsl.Matching

/- The two loops of a match, stated for any containers: filling from the front of
one level, and taking the best level again and again. `Means` says which orders the
containers of a loop state hold; one iteration of each loop is specified, and the
whole loop is then the priority sweep. -/
namespace Qsl

open List

variable {orders : List Order}

section FillLoop

variable {S : Type}

/-- One iteration of a level's fill loop. -/
structure FillLoopSpec (ctx : S → MatchContext) (step : S → Option S) (price : Price)
    (Means : S → List Order → Prop) : Prop where
  priced : ∀ state orders, Means state orders → ∀ order ∈ orders, order.price = price
  stop : ∀ state orders, Means state orders → (ctx state).quantity = 0 ∨ orders = [] →
    step state = none
  fill : ∀ state maker queued, Means state (maker :: queued) → (ctx state).quantity ≠ 0 →
    ∃ next, step state = some next ∧
      ctx next = (fillMaker (ctx state) maker.id maker.quantity price).1 ∧
      (maker.quantity - min (ctx state).quantity maker.quantity = 0 → Means next queued) ∧
      (maker.quantity - min (ctx state).quantity maker.quantity ≠ 0 →
        Means next ({ maker with
          quantity := maker.quantity - min (ctx state).quantity maker.quantity } :: queued))

variable {ctx : S → MatchContext} {step : S → Option S} {price : Price}
variable {Means : S → List Order → Prop}

/-- The fill loop sweeps the orders of its level. -/
theorem FillLoopSpec.run (spec : FillLoopSpec ctx step price Means) (orders : List Order) :
    ∀ (bound : Nat) (state : S), orders.length < bound → Means state orders →
      (ctx state).taker.crosses price = true →
      let swept := sweep (ctx state).taker orders (ctx state).quantity
      ctx (WhileLoop.run step bound state) = (ctx state).after swept ∧
        Means (WhileLoop.run step bound state) swept.left := by
  induction orders with
  | nil =>
    intro bound state enough means crossing
    rw [WhileLoop.run_stop _ _ _ (spec.stop state [] means (Or.inr rfl))]
    exact ⟨((ctx state).after_idle []).symm, means⟩
  | cons maker queued ih =>
    intro bound state enough means crossing
    by_cases filled : (ctx state).quantity = 0
    · rw [WhileLoop.run_stop _ _ _ (spec.stop state _ means (Or.inl filled))]
      have idle : sweep (ctx state).taker (maker :: queued) (ctx state).quantity =
          ⟨[], [], (ctx state).quantity, maker :: queued⟩ := by
        rw [filled, sweep_zero]
      rw [idle]
      exact ⟨((ctx state).after_idle _).symm, means⟩
    obtain ⟨fewer, rfl⟩ : ∃ fewer, bound = fewer + 1 := ⟨bound - 1, by omega⟩
    have priced := spec.priced state _ means maker mem_cons_self
    subst priced
    obtain ⟨next, taken, recorded, usedUp, leftOver⟩ := spec.fill state maker queued means filled
    rw [WhileLoop.run_step _ _ _ _ taken]
    by_cases exhausted : maker.quantity - min (ctx state).quantity maker.quantity = 0
    · have tail := ih fewer next (by simpa using enough) (usedUp exhausted)
        (by rw [recorded]; exact crossing)
      have walked := fillMaker_exhaust queued filled crossing exhausted
      rw [recorded] at tail
      exact ⟨tail.1.trans walked.1, walked.2 ▸ tail.2⟩
    · obtain ⟨record, left, done⟩ := fillMaker_survive queued filled crossing exhausted
      have means' := leftOver exhausted
      have quiet := spec.stop next _ means' (Or.inl (by rw [recorded]; exact done))
      rw [WhileLoop.run_stop _ _ _ quiet, recorded]
      exact ⟨record, left ▸ means'⟩

end FillLoop

section LevelLoop

variable {S : Type}

/-- One iteration of the loop over levels; the buckets are the levels, best first. -/
structure LevelLoopSpec (ctx : S → MatchContext) (step : S → Option S)
    (Means : S → List (Price × List Order) → Prop) : Prop where
  filled : ∀ state, (ctx state).quantity = 0 → step state = none
  empty : ∀ state, Means state [] → step state = none
  bucket : ∀ state price orders others, Means state ((price, orders) :: others) →
    orders ≠ [] ∧ ∀ order ∈ orders, order.price = price
  apart : ∀ state price orders others, Means state ((price, orders) :: others) →
    (ctx state).taker.crosses price = false → step state = none
  fill : ∀ state price orders others, Means state ((price, orders) :: others) →
    (ctx state).quantity ≠ 0 → (ctx state).taker.crosses price = true →
    let swept := sweep (ctx state).taker orders (ctx state).quantity
    ∃ next, step state = some next ∧ ctx next = (ctx state).after swept ∧
      (swept.left = [] → Means next others) ∧
      (swept.left ≠ [] → Means next ((price, swept.left) :: others))

/-- `final` is `state` after sweeping the buckets: the context records the sweep
and the containers mean what it leaves. -/
def Sweeps (ctx : S → MatchContext) (Means : S → List (Price × List Order) → Prop) (state : S)
    (buckets : List (Price × List Order)) (final : S) : Prop :=
  ctx final = (ctx state).after
      (sweep (ctx state).taker (buckets.flatMap Prod.snd) (ctx state).quantity) ∧
    ∃ remaining, Means final remaining ∧
      remaining.flatMap Prod.snd =
        (sweep (ctx state).taker (buckets.flatMap Prod.snd) (ctx state).quantity).left

variable {ctx : S → MatchContext} {step : S → Option S}
variable {Means : S → List (Price × List Order) → Prop}

/-- Whatever an iteration leaves means some buckets again. -/
theorem LevelLoopSpec.next (spec : LevelLoopSpec ctx step Means) {state next : S}
    {buckets : List (Price × List Order)} (means : Means state buckets)
    (taken : step state = some next) : ∃ left, Means next left := by
  have running : step state ≠ none := by
    rw [taken]
    exact Option.some_ne_none next
  cases buckets with
  | nil => exact absurd (spec.empty state means) running
  | cons bucket others =>
    have positive := mt (spec.filled state) running
    have crossing : (ctx state).taker.crosses bucket.1 = true := by
      by_contra apart
      exact running (spec.apart state _ _ others means (by simpa using apart))
    obtain ⟨_, step, _, used, kept⟩ := spec.fill state _ _ others means positive crossing
    cases taken.symm.trans step
    by_cases empty : (sweep (ctx state).taker bucket.2 (ctx state).quantity).left = []
    · exact ⟨_, used empty⟩
    · exact ⟨_, kept empty⟩

theorem Sweeps.idle {state : S} {buckets : List (Price × List Order)}
    (means : Means state buckets)
    (idle : sweep (ctx state).taker (buckets.flatMap Prod.snd) (ctx state).quantity =
      ⟨[], [], (ctx state).quantity, buckets.flatMap Prod.snd⟩) :
    Sweeps ctx Means state buckets state := by
  rw [Sweeps, idle]
  exact ⟨((ctx state).after_idle _).symm, buckets, means, rfl⟩

theorem Sweeps.next {state next final : S} {price : Price} {others : List (Price × List Order)}
    (used : (sweep (ctx state).taker orders (ctx state).quantity).left = [])
    (recorded : ctx next = (ctx state).after
      (sweep (ctx state).taker orders (ctx state).quantity))
    (tail : Sweeps ctx Means next others final) :
    Sweeps ctx Means state ((price, orders) :: others) final := by
  obtain ⟨context, remaining, means, left⟩ := tail
  rw [recorded, MatchContext.after_taker, MatchContext.after_quantity] at context left
  rw [MatchContext.after_append used] at context
  rw [Sweeps, flatMap_cons]
  refine ⟨context, remaining, means, ?_⟩
  rw [left, sweep_append]
  simp only [used, if_true]

theorem Sweeps.last {state next : S} {price : Price} {others : List (Price × List Order)}
    (remains : (sweep (ctx state).taker orders (ctx state).quantity).left ≠ [])
    (recorded : ctx next = (ctx state).after
      (sweep (ctx state).taker orders (ctx state).quantity)) (means : Means next
      ((price, (sweep (ctx state).taker orders (ctx state).quantity).left) :: others)) :
    Sweeps ctx Means state ((price, orders) :: others) next := by
  rw [Sweeps, flatMap_cons, sweep_append, if_neg remains]
  exact ⟨recorded, _, means, rfl⟩

/-- The level loop sweeps the whole side. -/
theorem LevelLoopSpec.run (spec : LevelLoopSpec ctx step Means)
    (buckets : List (Price × List Order)) :
    ∀ (bound : Nat) (state : S), buckets.length < bound → Means state buckets →
      Sweeps ctx Means state buckets (WhileLoop.run step bound state) := by
  induction buckets with
  | nil =>
    intro bound state enough means
    rw [WhileLoop.run_stop _ _ _ (spec.empty state means)]
    exact Sweeps.idle means rfl
  | cons bucket others ih =>
    intro bound state enough means
    rcases bucket with ⟨price, orders⟩
    obtain ⟨nonempty, filed⟩ := spec.bucket state price orders others means
    by_cases filled : (ctx state).quantity = 0
    · rw [WhileLoop.run_stop _ _ _ (spec.filled state filled)]
      apply Sweeps.idle means
      rw [filled, sweep_zero]
    cases crossing : (ctx state).taker.crosses price with
    | true =>
      obtain ⟨next, taken, recorded, usedUp, leftOver⟩ :=
        spec.fill state price orders others means filled crossing
      obtain ⟨fewer, rfl⟩ : ∃ fewer, bound = fewer + 1 := ⟨bound - 1, by omega⟩
      rw [WhileLoop.run_step _ _ _ _ taken]
      by_cases used : (sweep (ctx state).taker orders (ctx state).quantity).left = []
      · exact Sweeps.next used recorded (ih fewer next (by simpa using enough) (usedUp used))
      · have done : (ctx next).quantity = 0 := by
          rw [recorded]
          exact sweep_level_left crossing filed used
        rw [WhileLoop.run_stop _ _ _ (spec.filled next done)]
        exact Sweeps.last used recorded (leftOver used)
    | false =>
      rw [WhileLoop.run_stop _ _ _ (spec.apart state price orders others means crossing)]
      apply Sweeps.idle means
      obtain ⟨first, queued, rfl⟩ := exists_cons_of_ne_nil nonempty
      rw [flatMap_cons, cons_append]
      apply sweep_stop
      rw [filed first mem_cons_self]
      exact Or.inr crossing

end LevelLoop

section OrderedLevels

variable {Level σ : Type} {lt : Price → Price → Prop} [DecidableRel lt] [IsStrictTotalOrder Price lt]
variable (fillLevelFn : Level → Price → σ → MatchContext → Level × σ × MatchContext)
variable (emptyFn : Level → Bool)

theorem matchOrderedLevelsStep_filled {walk : LevelWalk Level σ lt}
    (filled : walk.ctx.quantity = 0) : matchOrderedLevelsStep fillLevelFn emptyFn walk = none := by
  rw [matchOrderedLevelsStep, if_pos filled]

theorem matchOrderedLevelsStep_empty {walk : LevelWalk Level σ lt}
    (empty : walk.opposite.entries = []) :
    matchOrderedLevelsStep fillLevelFn emptyFn walk = none := by
  rw [matchOrderedLevelsStep, OrderedMap.first?, empty]
  split <;> rfl

theorem matchOrderedLevelsStep_apart {walk : LevelWalk Level σ lt} {entry : Price × Level}
    {rest : List (Price × Level)} (shape : walk.opposite.entries = entry :: rest)
    (apart : walk.ctx.taker.crosses entry.1 = false) :
    matchOrderedLevelsStep fillLevelFn emptyFn walk = none := by
  rw [MatchContext.taker_crosses] at apart
  rw [matchOrderedLevelsStep, OrderedMap.first?, shape]
  simp [apart]

/-- A taken iteration erases the used-up best level or writes the filled one back. -/
theorem matchOrderedLevelsStep_fill {walk : LevelWalk Level σ lt} {price : Price} {level : Level}
    {rest : List (Price × Level)} (shape : walk.opposite.entries = (price, level) :: rest)
    (positive : walk.ctx.quantity ≠ 0) (crossing : walk.ctx.taker.crosses price = true) :
    ∃ next, matchOrderedLevelsStep fillLevelFn emptyFn walk = some next ∧
      next.store = (fillLevelFn level price walk.store walk.ctx).2.1 ∧
      next.ctx = (fillLevelFn level price walk.store walk.ctx).2.2 ∧
      next.opposite.entries =
        if emptyFn (fillLevelFn level price walk.store walk.ctx).1 then rest
        else (price, (fillLevelFn level price walk.store walk.ctx).1) :: rest := by
  rw [MatchContext.taker_crosses] at crossing
  rw [matchOrderedLevelsStep, if_neg positive, OrderedMap.first?, shape]
  simp only [head?_cons, crossing, Bool.not_true, Bool.false_eq_true, if_false,
    Option.some.injEq, exists_eq_left', true_and]
  have written := OrderedMap.insert_first shape (fillLevelFn level price walk.store walk.ctx).1
  split
  · exact OrderedMap.erase_first written
  · exact written

/-- What filling the best level of a map owes: the level's containers then hold
what the sweep of its orders leaves. -/
structure LevelWalkSpec (Means : List (Price × Level) → σ → List (Price × List Order) → Prop) :
    Prop where
  length : ∀ entries store buckets, Means entries store buckets → buckets.length = entries.length
  cons : ∀ entry rest store buckets, Means (entry :: rest) store buckets →
    ∃ orders others, buckets = (entry.1, orders) :: others ∧ orders ≠ [] ∧
      ∀ order ∈ orders, order.price = entry.1
  fill : ∀ price level rest store orders others ctx,
    Means ((price, level) :: rest) store ((price, orders) :: others) →
    ctx.quantity ≠ 0 → ctx.taker.crosses price = true →
    let swept := sweep ctx.taker orders ctx.quantity
    let filled := fillLevelFn level price store ctx
    filled.2.2 = ctx.after swept ∧
      (swept.left = [] → emptyFn filled.1 = true ∧ Means rest filled.2.1 others) ∧
      (swept.left ≠ [] → emptyFn filled.1 = false ∧
        Means ((price, filled.1) :: rest) filled.2.1 ((price, swept.left) :: others))

variable {fillLevelFn emptyFn}
variable {Means : List (Price × Level) → σ → List (Price × List Order) → Prop}

omit [DecidableRel lt] [IsStrictTotalOrder Price lt] in
/-- The map's first entry is the first bucket. -/
theorem LevelWalkSpec.shape (spec : LevelWalkSpec fillLevelFn emptyFn Means)
    {walk : LevelWalk Level σ lt} {price : Price} {others : List (Price × List Order)}
    (means : Means walk.opposite.entries walk.store ((price, orders) :: others)) :
    ∃ level rest, walk.opposite.entries = (price, level) :: rest ∧ orders ≠ [] ∧
      ∀ order ∈ orders, order.price = price := by
  cases entries : walk.opposite.entries with
  | nil =>
    rw [entries] at means
    cases spec.length _ _ _ means
  | cons entry rest =>
    rw [entries] at means
    obtain ⟨_, _, same, nonempty, filed⟩ := spec.cons entry rest _ _ means
    cases same
    exact ⟨entry.2, rest, rfl, nonempty, filed⟩

/-- The loop over a map's levels meets the specification of the level loop. -/
theorem LevelWalkSpec.loop (spec : LevelWalkSpec fillLevelFn emptyFn Means) :
    LevelLoopSpec LevelWalk.ctx (matchOrderedLevelsStep fillLevelFn emptyFn)
      (fun (walk : LevelWalk Level σ lt) buckets =>
        Means walk.opposite.entries walk.store buckets) where
  filled := fun _ filled => matchOrderedLevelsStep_filled _ _ filled
  empty := by
    intro walk means
    apply matchOrderedLevelsStep_empty
    exact eq_nil_of_length_eq_zero (spec.length _ _ _ means).symm
  bucket := by
    intro walk price orders others means
    obtain ⟨_, _, _, nonempty, filed⟩ := spec.shape means
    exact ⟨nonempty, filed⟩
  apart := by
    intro walk price orders others means apart
    obtain ⟨_, _, shape, _⟩ := spec.shape means
    exact matchOrderedLevelsStep_apart _ _ shape apart
  fill := by
    intro walk price orders others means positive crossing
    obtain ⟨level, rest, shape, _⟩ := spec.shape means
    rw [shape] at means
    obtain ⟨next, taken, store, context, opposite⟩ :=
      matchOrderedLevelsStep_fill fillLevelFn emptyFn shape positive crossing
    obtain ⟨recorded, usedUp, leftOver⟩ :=
      spec.fill price level rest walk.store orders others walk.ctx means positive crossing
    refine ⟨next, taken, context.trans recorded, ?_, ?_⟩
    · intro used
      obtain ⟨empty, meansRest⟩ := usedUp used
      rw [if_pos empty] at opposite
      rw [opposite, store]
      exact meansRest
    · intro remains
      obtain ⟨present, meansLeft⟩ := leftOver remains
      rw [present] at opposite
      rw [opposite, store]
      exact meansLeft

theorem matchOrderedLevels_sweeps (spec : LevelWalkSpec fillLevelFn emptyFn Means)
    (walk : LevelWalk Level σ lt) {buckets : List (Price × List Order)}
    (means : Means walk.opposite.entries walk.store buckets) :
    Sweeps LevelWalk.ctx (fun walk buckets => Means walk.opposite.entries walk.store buckets)
      walk buckets (matchOrderedLevels fillLevelFn emptyFn walk) := by
  apply spec.loop.run buckets _ walk _ means
  rw [spec.length _ _ _ means]
  exact Nat.lt_succ_self _

end OrderedLevels

end Qsl
