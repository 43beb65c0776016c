import Qsl.BigEndian
import Qsl.MatchingEngine
import Mathlib.Data.List.GetD

namespace Qsl

open List

/-- The recordable commands. -/
inductive Command where
  | registerSymbol (name : SymbolName)
  | newLimit (symbol : SymbolId) (id : OrderId) (side : Side) (price : Price) (quantity : Quantity)
      (tif : TimeInForce)
  | newMarket (symbol : SymbolId) (id : OrderId) (side : Side) (quantity : Quantity)
  | cancel (symbol : SymbolId) (id : OrderId)
  | modify (symbol : SymbolId) (id : OrderId) (price : Price) (quantity : Quantity)
  deriving DecidableEq, Repr

def Side.toByte : Side → UInt8
  | .buy => 0
  | .sell => 1

/-- The cast from a byte and `is_valid` in one. -/
def Side.ofByte? (byte : UInt8) : Option Side :=
  if byte = 0 then some .buy else if byte = 1 then some .sell else none

def TimeInForce.toByte : TimeInForce → UInt8
  | .gtc => 0
  | .ioc => 1

def TimeInForce.ofByte? (byte : UInt8) : Option TimeInForce :=
  if byte = 0 then some .gtc else if byte = 1 then some .ioc else none

@[simp] theorem Side.ofByte?_toByte (side : Side) : Side.ofByte? side.toByte = some side := by
  cases side <;> rfl

@[simp] theorem TimeInForce.ofByte?_toByte (tif : TimeInForce) :
    TimeInForce.ofByte? tif.toByte = some tif := by
  cases tif <;> rfl

namespace Command

open BigEndian

def newLimitSize : Nat := 28

def newMarketSize : Nat := 18

def cancelSize : Nat := 13

def modifySize : Nat := 25

/-- The tag byte and the fields in order; a new limit order has one spare byte at its end. -/
def encodeCommand : Command → List UInt8
  | .registerSymbol name => 0 :: name
  | .newLimit symbol id side price quantity tif =>
    1 :: (store 4 symbol.toNat ++ (store 8 id.toNat ++ (store 8 price.toUInt64.toNat ++
      (store 4 quantity.toNat ++ [side.toByte, tif.toByte, 0]))))
  | .newMarket symbol id side quantity =>
    2 :: (store 4 symbol.toNat ++ (store 8 id.toNat ++ ([side.toByte] ++
      store 4 quantity.toNat)))
  | .cancel symbol id => 3 :: (store 4 symbol.toNat ++ store 8 id.toNat)
  | .modify symbol id price quantity =>
    4 :: (store 4 symbol.toNat ++ (store 8 id.toNat ++ (store 8 price.toUInt64.toNat ++
      store 4 quantity.toNat)))

def symbolAt (bytes : List UInt8) : SymbolId := UInt32.ofNat (loadAt bytes 1 4)

def idAt (bytes : List UInt8) : OrderId := UInt64.ofNat (loadAt bytes 5 8)

def priceAt (bytes : List UInt8) : Price := (UInt64.ofNat (loadAt bytes 13 8)).toInt64

def decodeRegisterSymbol (bytes : List UInt8) : Option Command :=
  some (.registerSymbol (bytes.drop 1))

def decodeNewLimit (bytes : List UInt8) : Option Command :=
  if bytes.length < newLimitSize then none
  else do
    let side ← Side.ofByte? (bytes.getD 25 0)
    let tif ← TimeInForce.ofByte? (bytes.getD 26 0)
    some (.newLimit (symbolAt bytes) (idAt bytes) side (priceAt bytes)
      (UInt32.ofNat (loadAt bytes 21 4)) tif)

def decodeNewMarket (bytes : List UInt8) : Option Command :=
  if bytes.length < newMarketSize then none
  else do
    let side ← Side.ofByte? (bytes.getD 13 0)
    some (.newMarket (symbolAt bytes) (idAt bytes) side (UInt32.ofNat (loadAt bytes 14 4)))

def decodeCancel (bytes : List UInt8) : Option Command :=
  if bytes.length < cancelSize then none else some (.cancel (symbolAt bytes) (idAt bytes))

def decodeModify (bytes : List UInt8) : Option Command :=
  if bytes.length < modifySize then none
  else some (.modify (symbolAt bytes) (idAt bytes) (priceAt bytes)
    (UInt32.ofNat (loadAt bytes 21 4)))

def decodeCommand (bytes : List UInt8) : Option Command :=
  match bytes.head? with
  | none => none
  | some tag =>
    if tag = 0 then decodeRegisterSymbol bytes
    else if tag = 1 then decodeNewLimit bytes
    else if tag = 2 then decodeNewMarket bytes
    else if tag = 3 then decodeCancel bytes
    else if tag = 4 then decodeModify bytes
    else none

section Layout

variable (tag : UInt8) (symbol : SymbolId) (id : OrderId) (rest : List UInt8)

variable (price : Price) (quantity : Quantity)

end Layout

end Command

end Qsl
