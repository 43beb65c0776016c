import Qsl.Exchange
import Qsl.CallEffects

namespace Qsl

/-- The limits as they are meant, in unbounded integers. -/
structure RiskConfig.Within (config : RiskConfig) (price : Price) (quantity : Quantity) : Prop where
  positivePrice : 0 < price.toInt
  positiveQuantity : 0 < quantity.toNat
  maxQuantity : quantity.toNat ≤ config.maxOrderQuantity.toNat
  notional : price.toInt * quantity.toNat ≤ config.maxNotional.toNat

namespace RiskConfig

variable {config : RiskConfig} {price : Price} {quantity : Quantity}

/-- The division by the price decides what the product would, were it not to wrap around. -/
theorem notional_exceeded (positive : 0 < price) :
    config.maxNotional / price.toUInt64 < quantity.toUInt64 ↔
      (config.maxNotional.toNat : Int) < price.toInt * quantity.toNat := by
  have value := price_toUInt64 positive
  have sign : 0 < price.toInt := Int64.lt_iff_toInt_lt.mp positive
  have nonzero : 0 < price.toUInt64.toNat := by omega
  rw [UInt64.lt_iff_toNat_lt, UInt64.toNat_div, UInt32.toNat_toUInt64,
    Nat.div_lt_iff_lt_mul nonzero, ← value, Nat.mul_comm, ← Int.natCast_mul, Int.ofNat_lt]

theorem checkLimitValues_within :
    config.checkLimitValues price quantity = .none ↔ config.Within price quantity := by
  rw [checkLimitValues]
  by_cases priced : 0 < price
  · have sign : 0 < price.toInt := Int64.lt_iff_toInt_lt.mp priced
    by_cases zero : quantity = 0
    · subst zero
      simp only [isValidPrice, priced, isValidQuantity]
      exact ⟨nofun, fun within => absurd within.positiveQuantity (by decide)⟩
    have alive : 0 < quantity := (quantity_pos quantity).mpr zero
    have count : 0 < quantity.toNat := UInt32.lt_iff_toNat_lt.mp alive
    simp only [isValidPrice, priced, isValidQuantity, alive, decide_true, Bool.not_true,
      Bool.false_eq_true, if_false, gt_iff_lt]
    split
    · rename_i exceeds
      have more := UInt32.lt_iff_toNat_lt.mp exceeds
      exact ⟨nofun, fun within => absurd within.maxQuantity (by omega)⟩
    · rename_i covered
      have fewer := UInt32.le_iff_toNat_le.mp (UInt32.not_lt.mp covered)
      split
      · rename_i exceeds
        rw [notional_exceeded priced] at exceeds
        exact ⟨nofun, fun within => absurd within.notional (by omega)⟩
      · rename_i under
        rw [notional_exceeded priced] at under
        exact ⟨fun _ => ⟨sign, count, fewer, by omega⟩, fun _ => rfl⟩
  · simp only [isValidPrice, priced]
    refine ⟨nofun, ?_⟩
    intro within
    have sign : (0 : Price).toInt < price.toInt := within.positivePrice
    exact absurd (Int64.lt_iff_toInt_lt.mpr sign) priced

theorem checkLimitValues_notional (positive : 0 < price)
    (covered : quantity ≤ config.maxOrderQuantity) :
    config.checkLimitValues price quantity = .maxNotionalExceeded ↔
      (config.maxNotional.toNat : Int) < price.toInt * quantity.toNat := by
  rw [checkLimitValues, if_neg (by simp [isValidPrice, positive])]
  by_cases zero : quantity = 0
  · subst zero
    rw [if_pos (by decide)]
    refine ⟨nofun, ?_⟩
    intro exceeds
    rw [UInt32.toNat_zero, Int.natCast_zero, Int.mul_zero] at exceeds
    omega
  · have alive : 0 < quantity := (quantity_pos quantity).mpr zero
    rw [if_neg (by simp [isValidQuantity, alive]), if_neg (UInt32.not_lt.mpr covered),
      ← notional_exceeded positive]
    split
    · rename_i exceeds
      exact ⟨fun _ => exceeds, fun _ => rfl⟩
    · rename_i under
      exact ⟨nofun, fun exceeds => absurd exceeds under⟩

/-- A smaller part of an order within the limits is within them. -/
theorem Within.less (within : config.Within price quantity) {part : Quantity}
    (positive : 0 < part) (less : part ≤ quantity) : config.Within price part := by
  have sign := within.positivePrice
  have fewer := UInt32.le_iff_toNat_le.mp less
  refine ⟨sign, UInt32.lt_iff_toNat_lt.mp positive, Nat.le_trans fewer within.maxQuantity, ?_⟩
  refine Int.le_trans ?_ within.notional
  exact Int.mul_le_mul_of_nonneg_left (Int.ofNat_le.mpr fewer) (Int.le_of_lt sign)

end RiskConfig

namespace Market

variable {config : RiskConfig} {market : Market}

/-- Every resting order is within the limits. -/
def WithinRisk (config : RiskConfig) (market : Market) : Prop :=
  ∀ symbol book, market.books.find? symbol = some book →
    ∀ order ∈ book.restingOrders, config.Within order.price order.quantity

/-- What the gateway lets through submits nothing or something within the limits. -/
theorem verdict_within {command : Command} {symbol : SymbolId} {op : BookOp} {price : Price}
    (targets : command.target = some (symbol, op))
    (allowed : market.verdict config command = .none) (priced : op.price? = some price) :
    op.submitted = 0 ∨ config.Within price op.submitted := by
  obtain ⟨book, known, admitted⟩ := verdict_known targets allowed
  cases command with
  | registerSymbol name => cases targets
  | newLimit symbol id side limit quantity tif =>
    cases targets
    cases priced
    have fresh : book.contains id = false := by simpa [Book.admits] using admitted
    simp only [verdict, known, fresh, RiskConfig.checkLimit_side] at allowed
    exact Or.inr (RiskConfig.checkLimitValues_within.mp allowed)
  | modify symbol id newPrice newQuantity =>
    cases targets
    cases priced
    have resting : book.contains id = true := admitted
    simp only [verdict, known, resting] at allowed
    by_cases zero : newQuantity = 0
    · exact Or.inl zero
    · simp only [zero, if_false] at allowed
      exact Or.inr (RiskConfig.checkLimitValues_within.mp allowed)
  | _ =>
    cases targets
    cases priced

theorem WithinRisk.registerSymbol (within : market.WithinRisk config) (name : SymbolName) :
    (market.registerSymbol name).WithinRisk config := by
  intro symbol book found
  rcases market.registerSymbol_find? name symbol with same | ⟨_, fresh⟩
  · exact within symbol book (same.symm.trans found)
  · cases fresh.symm.trans found
    exact nofun

/-- An allowed command keeps every resting order within the limits. -/
theorem WithinRisk.apply (within : market.WithinRisk config) (valid : market.WellFormed)
    {command : Command} (allowed : market.verdict config command = .none) :
    (market.apply command).1.WithinRisk config := by
  rcases market.apply_target command with ⟨name, _, applied⟩ | ⟨symbol, op, targets, applied⟩
  · rw [applied]
    exact within.registerSymbol name
  · obtain ⟨book, known, admitted⟩ := verdict_known targets allowed
    rw [applied, call_admitted known admitted]
    intro other after found order member
    rw [OrderedMap.find?_insert] at found
    split at found
    · cases found
      have positive : 0 < order.quantity := by
        obtain ⟨side, inside⟩ := Book.mem_restingOrders.mp member
        exact ((valid symbol book known).apply op).positive side order inside
      rcases (valid symbol book known).apply_source admitted order member with
        ⟨_, source, resting, tags, less⟩ | ⟨_, priced, less⟩
      · have same : source.price = order.price := congrArg (fun tag => tag.2.2) tags
        rw [← same]
        exact (within symbol book known source resting).less positive less
      · rcases verdict_within targets allowed priced with nothing | submitted
        · rw [nothing] at less
          exact absurd positive (UInt32.not_lt.mpr less)
        · exact submitted.less positive less
    · exact within other after found order member

end Market

/-- Everything that rests behind a gateway is within its limits, whatever the storage. -/
theorem withinRisk_run (storage : Storage) (config : RiskConfig) (commands : List Command) :
    (Machine.run (Market.exchange storage config) Market.empty commands).1.WithinRisk config := by
  refine (Machine.run_invariant (Market.exchange storage config)
    (fun market => market.WellFormed ∧ market.WithinRisk config) ?_
    ⟨Market.wellFormed_empty, nofun⟩ commands).2
  rintro market command ⟨valid, within⟩
  rcases market.exchange_cases storage config command with
    ⟨reason, _, rejected⟩ | ⟨allowed, _, applied⟩
  · rw [rejected]
    exact ⟨valid, within⟩
  · rw [applied]
    exact ⟨valid.apply command, within.apply valid allowed⟩

/-- Risk limits hold for everything that rests, in unbounded integers, and the notional limit
refuses exactly the products that exceed it. -/
theorem risk_limits_hold :
    (∀ (storage : Storage) (config : RiskConfig) (commands : List Command) (symbol : SymbolId),
      ∀ order ∈ (Machine.run (applyCommand config) (MatchingEngine.new storage)
          commands).1.restingOrders symbol,
        0 < order.price.toInt ∧ 0 < order.quantity.toNat ∧
          order.quantity.toNat ≤ config.maxOrderQuantity.toNat ∧
          order.price.toInt * order.quantity.toNat ≤ config.maxNotional.toNat) ∧
    (∀ (config : RiskConfig) (engine : MatchingEngine) (symbol : SymbolId) (id : OrderId)
        (side : Side) (price : Price) (quantity : Quantity) (tif : TimeInForce),
      engine.hasSymbol symbol = true → engine.contains symbol id = false → side.isValid = true →
      0 < price → quantity ≤ config.maxOrderQuantity →
      ((OrderGateway.newLimit config engine symbol id side price quantity tif).2.reason =
          .maxNotionalExceeded ↔
        (config.maxNotional.toNat : Int) < price.toInt * quantity.toNat)) ∧
    (∀ (config : RiskConfig) (engine : MatchingEngine) (symbol : SymbolId) (id : OrderId)
        (newPrice : Price) (newQuantity : Quantity),
      engine.hasSymbol symbol = true → engine.contains symbol id = true → newQuantity ≠ 0 →
      0 < newPrice → newQuantity ≤ config.maxOrderQuantity →
      ((OrderGateway.modify config engine symbol id newPrice newQuantity).2.reason =
          .maxNotionalExceeded ↔
        (config.maxNotional.toNat : Int) < newPrice.toInt * newQuantity.toNat)) := by
  refine ⟨?_, ?_, ?_⟩
  · intro storage config commands symbol order member
    obtain ⟨sound, same⟩ := MatchingEngine.exchange_run storage config commands
    have within := withinRisk_run storage config commands
    rw [same] at within
    rw [sound.valid.restingOrders_eq, Market.restingOrders] at member
    cases found : (Machine.run (applyCommand config) (MatchingEngine.new storage)
        commands).1.view.books.find? symbol with
    | none =>
      rw [found] at member
      cases member
    | some book =>
      rw [found] at member
      have limits := within symbol book found order member
      exact ⟨limits.positivePrice, limits.positiveQuantity, limits.maxQuantity, limits.notional⟩
  · intro config engine symbol id side price quantity tif known fresh _ positive covered
    have decided := RiskConfig.checkLimitValues_notional positive covered
    simp only [OrderGateway.newLimit, known, fresh, RiskConfig.checkLimit_side, Bool.not_true,
      Bool.false_eq_true, if_false]
    rw [← decided]
    by_cases passes : config.checkLimitValues price quantity = .none
    · rw [if_neg (not_not.mpr passes), passes]
      split <;> constructor <;> intro same <;> cases same
    · rw [if_pos passes]
      exact Iff.rfl
  · intro config engine symbol id newPrice newQuantity known resting nonzero positive covered
    have decided := RiskConfig.checkLimitValues_notional positive covered
    simp only [OrderGateway.modify, known, resting, nonzero, Bool.not_true, Bool.false_eq_true,
      if_false]
    rw [← decided]
    by_cases passes : config.checkLimitValues newPrice newQuantity = .none
    · rw [if_neg (not_not.mpr passes), passes]
      split <;> constructor <;> intro same <;> cases same
    · rw [if_pos passes]
      exact Iff.rfl

/-- A price and quantity whose 64-bit product would wrap around to zero. -/
theorem risk_limits_hold_wrap :
    let config : RiskConfig := ⟨100, 1000⟩
    let engine := ((MatchingEngine.new .contiguous).registerSymbol [65]).1
    (OrderGateway.newLimit config engine 0 1 .buy 4611686018427387904 8 .gtc).2.reason =
      .maxNotionalExceeded :=
  (risk_limits_hold.2.1 ⟨100, 1000⟩ ((MatchingEngine.new .contiguous).registerSymbol [65]).1 0 1
    .buy 4611686018427387904 8 .gtc (by decide +kernel) (by decide +kernel) (by decide)
    (by decide) (by decide)).mpr (by decide)

end Qsl
