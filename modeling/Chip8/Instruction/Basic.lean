namespace Chip8

inductive Condition
  | holds (x n : UInt8)
  | lacks (x n : UInt8)
  | equal (x y : UInt8)
  | differ (x y : UInt8)
  | keyDown (x : UInt8)
  | keyUp (x : UInt8)
  deriving DecidableEq, Repr

inductive Arithmetic
  | copy
  | or
  | and
  | xor
  | add
  | sub
  | shiftRight
  | subFrom
  | shiftLeft
  deriving DecidableEq, Repr

/-- The instruction set. Registers are named by a byte and addresses by a word, so a value may have
operands that no opcode can hold. -/
inductive Instruction
  | sys (address : UInt16)
  | clearScreen
  | ret
  | jump (address : UInt16)
  | call (address : UInt16)
  | skip (condition : Condition)
  | setByte (x n : UInt8)
  | addByte (x n : UInt8)
  | combine (op : Arithmetic) (x y : UInt8)
  | setIndex (address : UInt16)
  | jumpOffset (address : UInt16)
  | random (x mask : UInt8)
  | draw (x y height : UInt8)
  | readDelay (x : UInt8)
  | awaitKey (x : UInt8)
  | setDelay (x : UInt8)
  | setSound (x : UInt8)
  | addIndex (x : UInt8)
  | pointGlyph (x : UInt8)
  | storeDecimal (x : UInt8)
  | store (x : UInt8)
  | load (x : UInt8)
  deriving DecidableEq, Repr

end Chip8
