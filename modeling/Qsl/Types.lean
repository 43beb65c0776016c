import Mathlib.Order.RelClasses
import Mathlib.Tactic.Common

namespace Qsl

abbrev SymbolId := UInt32
abbrev Price := Int64
abbrev Quantity := UInt32
abbrev QuantityTotal := UInt64
abbrev OrderId := UInt64

/-- The engine's event counter, which starts at zero and is far from wrapping around. -/
abbrev SeqNo := Nat

inductive Side where
  | buy
  | sell
  deriving DecidableEq, Repr

inductive OrderType where
  | limit
  | market
  deriving DecidableEq, Repr

inductive TimeInForce where
  | gtc
  | ioc
  deriving DecidableEq, Repr

/-- A resting order. Time priority is its position within a price level. -/
structure Order where
  id : OrderId
  side : Side
  price : Price
  quantity : Quantity
  deriving DecidableEq, Repr

/-- A match between an aggressing taker and a resting maker, at the maker's price. -/
structure Trade where
  takerId : OrderId
  makerId : OrderId
  price : Price
  quantity : Quantity
  deriving DecidableEq, Repr

/-- Aggregate resting quantity at one price level. -/
structure LevelView where
  price : Price
  quantity : QuantityTotal
  deriving DecidableEq, Repr

/-- Engine output, each event with the sequence number it was emitted under. -/
inductive EngineEvent where
  | orderAccepted (seq : SeqNo) (symbol : SymbolId) (orderId : OrderId)
  | orderCanceled (seq : SeqNo) (symbol : SymbolId) (orderId : OrderId)
  | orderModified (seq : SeqNo) (symbol : SymbolId) (orderId : OrderId)
  | tradeEvent (seq : SeqNo) (symbol : SymbolId) (takerId makerId : OrderId) (price : Price)
      (quantity : Quantity)
  deriving DecidableEq, Repr

def Side.opposite : Side → Side
  | .buy => .sell
  | .sell => .buy

@[simp] theorem Side.opposite_opposite (side : Side) : side.opposite.opposite = side := by
  cases side <;> rfl

theorem Side.opposite_ne (side : Side) : side.opposite ≠ side := by
  cases side <;> decide

theorem Side.eq_or_eq_opposite (side other : Side) : other = side ∨ other = side.opposite := by
  cases side <;> cases other <;> decide

/-- The iteration order of a side's level map: `std::greater` for bids, `std::less` for asks. -/
def Better : Side → Price → Price → Prop
  | .buy, a, b => b < a
  | .sell, a, b => a < b

instance (side : Side) : DecidableRel (Better side) := fun a b =>
  match side with
  | .buy => inferInstanceAs (Decidable (b < a))
  | .sell => inferInstanceAs (Decidable (a < b))

instance priceStrictTotalOrder : IsStrictTotalOrder Price (· < ·) where
  irrefl := fun _ => Int64.lt_irrefl
  trans := fun _ _ _ => Int64.lt_trans
  trichotomous := fun _ _ notBelow notAbove =>
    Int64.le_antisymm (Int64.not_lt.mp notAbove) (Int64.not_lt.mp notBelow)

instance betterStrictTotalOrder (side : Side) : IsStrictTotalOrder Price (Better side) :=
  match side with
  | .buy => inferInstanceAs (IsStrictTotalOrder Price (Function.swap (· < ·)))
  | .sell => inferInstanceAs (IsStrictTotalOrder Price (· < ·))

instance uint64StrictTotalOrder : IsStrictTotalOrder UInt64 (· < ·) where
  irrefl := fun _ => UInt64.lt_irrefl _
  trans := fun _ _ _ => UInt64.lt_trans
  trichotomous := fun _ _ notBelow notAbove =>
    UInt64.le_antisymm (UInt64.not_lt.mp notAbove) (UInt64.not_lt.mp notBelow)

instance uint32StrictTotalOrder : IsStrictTotalOrder UInt32 (· < ·) where
  irrefl := fun _ => UInt32.lt_irrefl _
  trans := fun _ _ _ => UInt32.lt_trans
  trichotomous := fun _ _ notBelow notAbove =>
    UInt32.le_antisymm (UInt32.not_lt.mp notAbove) (UInt32.not_lt.mp notBelow)

instance uint8StrictTotalOrder : IsStrictTotalOrder UInt8 (· < ·) where
  irrefl := fun _ => UInt8.lt_irrefl _
  trans := fun _ _ _ => UInt8.lt_trans
  trichotomous := fun _ _ notBelow notAbove =>
    UInt8.le_antisymm (UInt8.not_lt.mp notAbove) (UInt8.not_lt.mp notBelow)

/-- Whether a level price is acceptable to the taker; a market order takes any price. -/
def canMatchLevel (takerIsBuy isMarket : Bool) (limit levelPrice : Price) : Bool :=
  if isMarket then true
  else if takerIsBuy then levelPrice ≤ limit else limit ≤ levelPrice

/-- The traded quantity of one fill is the smaller of both sides. -/
theorem quantity_min (taker maker : Quantity) :
    min taker maker = if taker ≤ maker then taker else maker := rfl

/-- One fill either exhausts the maker, or exhausts the taker and leaves the
maker resting with the difference. -/
theorem fill_cases (taker maker : Quantity) :
    (maker ≤ taker ∧ min taker maker = maker ∧ maker - min taker maker = 0) ∨
      (taker < maker ∧ min taker maker = taker ∧ taker - min taker maker = 0 ∧
        0 < maker - min taker maker) := by
  rw [quantity_min]
  rcases UInt32.lt_or_le taker maker with short | covered
  · refine Or.inr ⟨short, if_pos (UInt32.le_of_lt short), ?_, ?_⟩
    · rw [if_pos (UInt32.le_of_lt short)]
      exact UInt32.sub_self taker
    · rw [if_pos (UInt32.le_of_lt short), UInt32.lt_iff_toNat_lt,
        UInt32.toNat_sub_of_le _ _ (UInt32.le_of_lt short)]
      rw [UInt32.lt_iff_toNat_lt] at short
      simp only [UInt32.toNat_zero]
      omega
  · have traded : (if taker ≤ maker then taker else maker) = maker := by
      split
      · rename_i below
        exact UInt32.le_antisymm below covered
      · rfl
    refine Or.inl ⟨covered, traded, ?_⟩
    rw [traded]
    exact UInt32.sub_self maker

theorem quantity_pos (quantity : Quantity) : 0 < quantity ↔ quantity ≠ 0 := by
  rw [UInt32.lt_iff_toNat_lt, ← UInt32.toNat_inj.ne, UInt32.toNat_zero]
  omega

end Qsl
