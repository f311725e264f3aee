namespace Chip8

/-- The points on which interpreters disagree. -/
structure Dialect where
  shiftsSecond : Bool
  logicClearsFlag : Bool
  transferMovesIndex : Bool
  jumpNamesRegister : Bool
  indexSetsFlag : Bool
  deriving DecidableEq, Repr

namespace Dialect

def cosmacVip : Dialect where
  shiftsSecond := true
  logicClearsFlag := true
  transferMovesIndex := true
  jumpNamesRegister := false
  indexSetsFlag := false

def chip48 : Dialect where
  shiftsSecond := false
  logicClearsFlag := false
  transferMovesIndex := false
  jumpNamesRegister := true
  indexSetsFlag := true

def shiftOperand (d : Dialect) (x y : UInt8) : UInt8 := if d.shiftsSecond then y else x

def offsetRegister (d : Dialect) (address : UInt16) : UInt8 :=
  if d.jumpNamesRegister then (address / 0x100).toUInt8 else 0

end Dialect

structure UnknownDialect where
  name : String
  deriving DecidableEq, Repr

def UnknownDialect.message (e : UnknownDialect) : String :=
  "unknown quirk preset `" ++ e.name ++ "`, expected `cosmac-vip` or `chip48`"

def Dialect.ofName (name : String) : Except UnknownDialect Dialect :=
  let lower := String.ofList (name.toList.map Char.toLower)
  if lower ∈ ["cosmac-vip", "cosmac", "vip"] then .ok cosmacVip
  else if lower ∈ ["chip48", "chip-48"] then .ok chip48
  else .error ⟨name⟩

end Chip8
