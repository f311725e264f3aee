import Chip8.Fault
import Chip8.Instruction.Mnemonic

namespace Chip8

inductive Level
  | error
  | info
  | debug
  | trace
  deriving DecidableEq, Repr

namespace Level

def rank : Level → Nat
  | error => 0
  | info => 1
  | debug => 2
  | trace => 3

def word : Level → String
  | error => "ERROR"
  | info => "INFO"
  | debug => "DEBUG"
  | trace => "TRACE"

end Level

inductive Record
  | executing (address : UInt16) (instruction : Instruction)
  | ignoredSys (address : UInt16)
  | waitingForKey (x : UInt8)
  | keyStored (key x : UInt8)
  | halted (pc : UInt16) (fault : Fault)
  | machineReset
  | reloadFailed (error : LoadError)
  | loaded (size : Nat)
  deriving DecidableEq, Repr

namespace Record

def level : Record → Level
  | executing .. => .trace
  | ignoredSys _ | waitingForKey _ | keyStored .. => .debug
  | machineReset | loaded _ => .info
  | halted .. | reloadFailed _ => .error

def message : Record → String
  | executing a i => Text.prefixedHex 3 a.toNat ++ ": " ++ i.text
  | ignoredSys a => "Ignoring SYS " ++ Text.prefixedHex 3 a.toNat
  | waitingForKey x => "Waiting for a key for " ++ registerName x
  | keyStored key x =>
      "Key " ++ Text.upperHex 1 key.toNat ++ " pressed, stored in " ++ registerName x
  | halted pc f => "Halted at " ++ Text.prefixedHex 3 pc.toNat ++ ": " ++ f.message
  | machineReset => "Machine reset"
  | reloadFailed e => "Could not reload program: " ++ e.message
  | loaded size => "Loaded " ++ size.repr ++ " byte program"

def text (r : Record) : String := r.level.word ++ " " ++ r.message

end Record

def Level.heard (listener : Level) (log : List Record) : List Record :=
  log.filter fun r => r.level.rank ≤ listener.rank

/-- What an operation answers, the state it leaves, and the records it writes. -/
structure Transition (α σ : Type) where
  answer : α
  next : σ
  log : List Record

end Chip8
