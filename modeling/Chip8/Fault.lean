import Chip8.Opcode
import Chip8.Text.Hex
import Chip8.Text.Report

namespace Chip8

/-- What a running program can do wrong, and stepping a machine that has no program. -/
inductive Fault
  | outOfBounds (address : Nat)
  | fetchOutOfBounds (address : UInt16)
  | protectedWrite (address : Nat)
  | illegalOpcode (opcode : Opcode)
  | stackOverflow (target : UInt16)
  | stackUnderflow
  | noProgram
  deriving DecidableEq, Repr

inductive LoadError
  | tooLarge (size room : Nat)
  | invalidOffset (offset : Nat)
  deriving DecidableEq, Repr

structure InvalidKey where
  key : UInt8
  deriving DecidableEq, Repr

namespace Fault

def name : Fault → String
  | outOfBounds _ => "OutOfBounds"
  | fetchOutOfBounds _ => "FetchOutOfBounds"
  | protectedWrite _ => "ProtectedWrite"
  | illegalOpcode _ => "IllegalOpcode"
  | stackOverflow _ => "StackOverflow"
  | stackUnderflow => "StackUnderflow"
  | noProgram => "NoProgramLoaded"

def message : Fault → String
  | outOfBounds a => "memory access out of bounds at " ++ Text.prefixedHex 4 a
  | fetchOutOfBounds a => "instruction fetch out of bounds at " ++ Text.prefixedHex 4 a.toNat
  | protectedWrite a => "write to reserved memory at " ++ Text.prefixedHex 3 a
  | illegalOpcode w => "illegal opcode " ++ Text.prefixedHex 4 w.toNat
  | stackOverflow target => "stack overflow calling " ++ Text.prefixedHex 3 target.toNat
  | stackUnderflow => "return with an empty call stack"
  | noProgram => "no program has been loaded"

def report (f : Fault) : String :=
  match f with
  | outOfBounds a | protectedWrite a => Text.labelled f.name [("address", a)]
  | fetchOutOfBounds a => Text.labelled f.name [("address", a.toNat)]
  | illegalOpcode w => Text.application f.name [w.toNat.repr]
  | stackOverflow target => Text.labelled f.name [("target", target.toNat)]
  | stackUnderflow | noProgram => f.name

end Fault

namespace LoadError

def name : LoadError → String
  | tooLarge .. => "RomTooLarge"
  | invalidOffset _ => "InvalidOffset"

def message : LoadError → String
  | tooLarge size room =>
      "program is too large (" ++ size.repr ++ " bytes), at most " ++ room.repr ++ " bytes fit"
  | invalidOffset offset => "cannot load a program at " ++ Text.prefixedHex 3 offset

def report (e : LoadError) : String :=
  match e with
  | tooLarge size room => Text.labelled e.name [("size", size), ("max_size", room)]
  | invalidOffset offset => Text.labelled e.name [("offset", offset)]

end LoadError

namespace InvalidKey

def name (_ : InvalidKey) : String := "InvalidKeyIndex"

def message (e : InvalidKey) : String :=
  "invalid key index " ++ Text.prefixedHex 1 e.key.toNat ++ ", keys are 0x0..=0xf"

def report (e : InvalidKey) : String := Text.application e.name [e.key.toNat.repr]

end InvalidKey

end Chip8
