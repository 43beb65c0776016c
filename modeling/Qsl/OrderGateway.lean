import Qsl.Command
import Qsl.Market

namespace Qsl

inductive RejectReason where
  | none
  | unknownSymbol
  | invalidPrice
  | invalidQuantity
  | invalidSide
  | maxQuantityExceeded
  | maxNotionalExceeded
  | duplicateOrderId
  | unknownOrder
  | storageExhausted
  deriving DecidableEq, Repr

structure RiskConfig where
  maxOrderQuantity : Quantity
  maxNotional : QuantityTotal
  deriving DecidableEq, Repr

def isValidPrice (price : Price) : Bool := 0 < price

def isValidQuantity (quantity : Quantity) : Bool := 0 < quantity

def Side.isValid (side : Side) : Bool := side = .buy ∨ side = .sell

/-- A positive price keeps its value as an unsigned number. -/
theorem price_toUInt64 {price : Price} (positive : 0 < price) :
    (price.toUInt64.toNat : Int) = price.toInt := by
  have sign : 0 < price.toInt := Int64.lt_iff_toInt_lt.mp positive
  have value : price.toInt = (price.toUInt64.toNat : Int).bmod (2 ^ 64) := by
    rw [← UInt64.toNat_toBitVec]
    exact BitVec.toInt_eq_toNat_bmod price.toBitVec
  have small := price.toUInt64.toNat_lt
  rw [value, Int.bmod_def] at sign ⊢
  split at sign <;> omega

namespace RiskConfig

def checkLimitValues (config : RiskConfig) (price : Price) (quantity : Quantity) : RejectReason :=
  if !isValidPrice price then .invalidPrice
  else if !isValidQuantity quantity then .invalidQuantity
  else if quantity > config.maxOrderQuantity then .maxQuantityExceeded
  else if quantity.toUInt64 > config.maxNotional / price.toUInt64 then .maxNotionalExceeded
  else .none

def checkLimit (config : RiskConfig) (side : Side) (price : Price) (quantity : Quantity) :
    RejectReason :=
  if !side.isValid then .invalidSide else config.checkLimitValues price quantity

/-- The side that the model knows is always one of the two. -/
theorem checkLimit_side (config : RiskConfig) (side : Side) (price : Price)
    (quantity : Quantity) :
    config.checkLimit side price quantity = config.checkLimitValues price quantity := by
  cases side <;> rfl

def checkMarket (config : RiskConfig) (side : Side) (quantity : Quantity) : RejectReason :=
  if !side.isValid then .invalidSide
  else if !isValidQuantity quantity then .invalidQuantity
  else if quantity > config.maxOrderQuantity then .maxQuantityExceeded
  else .none

end RiskConfig

structure GatewayResult where
  accepted : Bool
  reason : RejectReason
  events : List EngineEvent
  deriving DecidableEq, Repr

def GatewayResult.reject (reason : RejectReason) : GatewayResult := ⟨false, reason, []⟩

def GatewayResult.accept (events : List EngineEvent) : GatewayResult := ⟨true, .none, events⟩

structure NewOrderPreview where
  accepted : Bool
  fillCount : Nat
  deriving DecidableEq, Repr

/- The gateway keeps nothing but the risk limits and the engine it forwards to. -/
namespace OrderGateway

variable (config : RiskConfig) (engine : MatchingEngine)

def newLimit (symbol : SymbolId) (id : OrderId) (side : Side) (price : Price) (quantity : Quantity)
    (tif : TimeInForce) : MatchingEngine × GatewayResult :=
  if !engine.hasSymbol symbol then (engine, .reject .unknownSymbol)
  else if engine.contains symbol id then (engine, .reject .duplicateOrderId)
  else if config.checkLimit side price quantity ≠ .none then
    (engine, .reject (config.checkLimit side price quantity))
  else if !engine.canStoreLimit symbol side price quantity tif then
    (engine, .reject .storageExhausted)
  else
    let (after, events) := engine.newLimit symbol id side price quantity tif
    (after, .accept events)

def newMarket (symbol : SymbolId) (id : OrderId) (side : Side) (quantity : Quantity) :
    MatchingEngine × GatewayResult :=
  if !engine.hasSymbol symbol then (engine, .reject .unknownSymbol)
  else if engine.contains symbol id then (engine, .reject .duplicateOrderId)
  else if config.checkMarket side quantity ≠ .none then
    (engine, .reject (config.checkMarket side quantity))
  else
    let (after, events) := engine.newMarket symbol id side quantity
    (after, .accept events)

def cancel (symbol : SymbolId) (id : OrderId) : MatchingEngine × GatewayResult :=
  if !engine.hasSymbol symbol then (engine, .reject .unknownSymbol)
  else if !engine.contains symbol id then (engine, .reject .unknownOrder)
  else
    let (after, events) := engine.cancel symbol id
    (after, .accept events)

def modify (symbol : SymbolId) (id : OrderId) (newPrice : Price) (newQuantity : Quantity) :
    MatchingEngine × GatewayResult :=
  if !engine.hasSymbol symbol then (engine, .reject .unknownSymbol)
  else if !engine.contains symbol id then (engine, .reject .unknownOrder)
  else if newQuantity = 0 then
    let (after, events) := engine.modify symbol id newPrice newQuantity
    (after, .accept events)
  else if config.checkLimitValues newPrice newQuantity ≠ .none then
    (engine, .reject (config.checkLimitValues newPrice newQuantity))
  else if !engine.canApplyModify symbol id newPrice newQuantity then
    (engine, .reject .storageExhausted)
  else
    let (after, events) := engine.modify symbol id newPrice newQuantity
    (after, .accept events)

def previewNewOrder (symbol : SymbolId) (id : OrderId) (side : Side) (price : Price)
    (quantity : Quantity) (type : OrderType) (tif : TimeInForce) : NewOrderPreview :=
  if !engine.hasSymbol symbol || engine.contains symbol id then ⟨false, 0⟩
  else
    let reason :=
      if type = .market then config.checkMarket side quantity
      else config.checkLimit side price quantity
    if reason ≠ .none then ⟨false, 0⟩
    else if type = .limit ∧ !engine.canStoreLimit symbol side price quantity tif then ⟨false, 0⟩
    else ⟨true, engine.fillCount symbol side price type quantity⟩

end OrderGateway

/-- `apply_command`: the dispatch of a recorded command to the gateway. -/
def applyCommand (config : RiskConfig) (engine : MatchingEngine) :
    Command → MatchingEngine × GatewayResult
  | .registerSymbol name => ((engine.registerSymbol name).1, .accept [])
  | .newLimit symbol id side price quantity tif =>
    OrderGateway.newLimit config engine symbol id side price quantity tif
  | .newMarket symbol id side quantity =>
    OrderGateway.newMarket config engine symbol id side quantity
  | .cancel symbol id => OrderGateway.cancel engine symbol id
  | .modify symbol id price quantity => OrderGateway.modify config engine symbol id price quantity

end Qsl
