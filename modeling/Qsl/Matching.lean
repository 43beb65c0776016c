import Qsl.WhileLoop
import Qsl.OrderedMap
import Qsl.PrioritySweep

/- The matching templates of `order_book.cpp`, shared by the storage backends.
The containers a backend supplies are the parameters. -/
namespace Qsl

/-- `MatchContext`; the two references become fields that are passed on. -/
structure MatchContext where
  takerId : OrderId
  takerIsBuy : Bool
  limit : Price
  isMarket : Bool
  quantity : Quantity
  trades : List Trade
  deriving DecidableEq, Repr

structure MatchResult where
  trades : List Trade
  remainder : Quantity
  accepted : Bool
  deriving DecidableEq, Repr

/-- The bundled new-limit arguments. -/
structure LimitInput where
  id : OrderId
  side : Side
  price : Price
  quantity : Quantity
  tif : TimeInForce
  deriving DecidableEq, Repr

structure MatchQuery where
  takerIsBuy : Bool
  limit : Price
  isMarket : Bool
  quantity : Quantity
  deriving DecidableEq, Repr

def matchIncoming {σ : Type} (store : σ) (id : OrderId) (side : Side) (limit : Price)
    (isMarket : Bool) (quantity : Quantity) (containsFn : σ → Bool)
    (matchFn : Side → σ → MatchContext → σ × MatchContext) : σ × MatchResult :=
  if containsFn store then (store, ⟨[], quantity, false⟩)
  else
    let (store', ctx) := matchFn side store ⟨id, side == .buy, limit, isMarket, quantity, []⟩
    (store', ⟨ctx.trades, ctx.quantity, true⟩)

/-- Record one fill; answers the context, the maker's quantity and whether it is used up. -/
def fillMaker (ctx : MatchContext) (makerId : OrderId) (makerQuantity : Quantity)
    (levelPrice : Price) : MatchContext × Quantity × Bool :=
  let traded := min ctx.quantity makerQuantity
  let trade : Trade := ⟨ctx.takerId, makerId, levelPrice, traded⟩
  ({ ctx with quantity := ctx.quantity - traded, trades := ctx.trades ++ [trade] },
    makerQuantity - traded, makerQuantity - traded == 0)

def shouldRestLimit (result : MatchResult) (tif : TimeInForce) : Bool :=
  if !result.accepted then false
  else if result.remainder == 0 then false
  else tif == .gtc

section Levels

variable {Level σ : Type} {lt : Price → Price → Prop} [DecidableRel lt] [IsStrictTotalOrder Price lt]

/-- Loop state of `match_ordered_levels`: the opposite map, the backend's other
containers and the context. -/
structure LevelWalk (Level σ : Type) (lt : Price → Price → Prop) where
  opposite : OrderedMap Price Level lt
  store : σ
  ctx : MatchContext

/-- One iteration: fill the best level, then erase it when it is empty. -/
def matchOrderedLevelsStep (fillLevelFn : Level → Price → σ → MatchContext → Level × σ × MatchContext)
    (emptyFn : Level → Bool) (walk : LevelWalk Level σ lt) : Option (LevelWalk Level σ lt) :=
  if walk.ctx.quantity = 0 then none
  else
    match walk.opposite.first? with
    | none => none
    | some (levelPrice, level) =>
      if !canMatchLevel walk.ctx.takerIsBuy walk.ctx.isMarket walk.ctx.limit levelPrice then none
      else
        let (level', store, ctx) := fillLevelFn level levelPrice walk.store walk.ctx
        let opposite := walk.opposite.insert levelPrice level'
        some ⟨if emptyFn level' then opposite.erase levelPrice else opposite, store, ctx⟩

def matchOrderedLevels (fillLevelFn : Level → Price → σ → MatchContext → Level × σ × MatchContext)
    (emptyFn : Level → Bool) (walk : LevelWalk Level σ lt) : LevelWalk Level σ lt :=
  WhileLoop.run (matchOrderedLevelsStep fillLevelFn emptyFn) (walk.opposite.size + 1) walk

end Levels

/-- The side-independent half of a context, as the walking taker. -/
def MatchContext.taker (ctx : MatchContext) : Taker :=
  ⟨ctx.takerId, if ctx.takerIsBuy then .buy else .sell, ctx.limit, ctx.isMarket⟩

@[simp] theorem MatchContext.taker_crosses (ctx : MatchContext) (price : Price) :
    ctx.taker.crosses price = canMatchLevel ctx.takerIsBuy ctx.isMarket ctx.limit price := by
  rcases ctx with ⟨id, takerIsBuy, limit, isMarket, quantity, trades⟩
  cases takerIsBuy <;> rfl

/-- The context after a walk with the given outcome. -/
def MatchContext.after (ctx : MatchContext) (swept : Sweep) : MatchContext :=
  { ctx with quantity := swept.remaining, trades := ctx.trades ++ swept.trades }

@[simp] theorem MatchContext.after_taker (ctx : MatchContext) (swept : Sweep) :
    (ctx.after swept).taker = ctx.taker := rfl

@[simp] theorem MatchContext.after_quantity (ctx : MatchContext) (swept : Sweep) :
    (ctx.after swept).quantity = swept.remaining := rfl

section Fill

variable {ctx : MatchContext} {maker : Order} (rest : List Order)

/-- Using up the front maker and walking on is the walk from that maker. -/
theorem fillMaker_exhaust (positive : ctx.quantity ≠ 0)
    (crossing : ctx.taker.crosses maker.price = true)
    (exhausted : maker.quantity - min ctx.quantity maker.quantity = 0) :
    let filled := (fillMaker ctx maker.id maker.quantity maker.price).1
    filled.after (sweep filled.taker rest filled.quantity) =
        ctx.after (sweep ctx.taker (maker :: rest) ctx.quantity) ∧
      (sweep filled.taker rest filled.quantity).left =
        (sweep ctx.taker (maker :: rest) ctx.quantity).left := by
  rw [sweep_exhaust ctx.taker positive crossing exhausted]
  refine ⟨?_, rfl⟩
  simp only [MatchContext.after, fillMaker, MatchContext.mk.injEq, true_and,
    List.append_assoc, List.singleton_append]
  exact ⟨rfl, rfl⟩

/-- A fill that leaves the maker resting fills the taker and ends the walk. -/
theorem fillMaker_survive (positive : ctx.quantity ≠ 0)
    (crossing : ctx.taker.crosses maker.price = true)
    (survives : maker.quantity - min ctx.quantity maker.quantity ≠ 0) :
    let filled := (fillMaker ctx maker.id maker.quantity maker.price).1
    filled = ctx.after (sweep ctx.taker (maker :: rest) ctx.quantity) ∧
      { maker with quantity := maker.quantity - min ctx.quantity maker.quantity } :: rest =
        (sweep ctx.taker (maker :: rest) ctx.quantity).left ∧
      filled.quantity = 0 := by
  rw [sweep_survive ctx.taker positive crossing survives]
  refine ⟨rfl, rfl, ?_⟩
  rcases fill_cases ctx.quantity maker.quantity with ⟨_, _, used⟩ | ⟨_, _, zero, _⟩
  · exact absurd used survives
  · exact zero

end Fill

theorem MatchContext.after_idle (ctx : MatchContext) (left : List Order) :
    ctx.after ⟨[], [], ctx.quantity, left⟩ = ctx := by
  simp [MatchContext.after]

/-- Consecutive walks record one walk over the joined list. -/
theorem MatchContext.after_append {ctx : MatchContext} {orders others : List Order}
    (used : (sweep ctx.taker orders ctx.quantity).left = []) :
    (ctx.after (sweep ctx.taker orders ctx.quantity)).after
        (sweep ctx.taker others (sweep ctx.taker orders ctx.quantity).remaining) =
      ctx.after (sweep ctx.taker (orders ++ others) ctx.quantity) := by
  rw [sweep_append]
  simp [MatchContext.after, used]

end Qsl
