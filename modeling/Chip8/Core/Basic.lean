import Chip8.CallStack
import Chip8.Dialect
import Chip8.Keypad
import Chip8.Log
import Chip8.Memory
import Chip8.Random.Source
import Chip8.Registers
import Chip8.Screen
import Chip8.Timers

namespace Chip8

inductive RunState
  | running
  | awaitingKey (x : UInt8)
  | halted (fault : Fault)
  deriving DecidableEq, Repr

def RunState.word : RunState → String
  | running => "Running"
  | awaitingKey _ => "AwaitingKey"
  | halted _ => "Halted"

structure Core where
  registers : Registers := .zero
  index : UInt16 := 0
  pc : UInt16 := 0x200
  stack : CallStack := .empty
  state : RunState := .running
  random : Random.Source
  memory : Memory := .initial
  screen : Screen := .blank
  timers : Timers := {}
  keypad : Keypad := .released
  deriving DecidableEq

namespace Core

def restart (s : Core) (random : Random.Source) : Core :=
  { random, memory := s.memory, screen := s.screen, timers := s.timers, keypad := s.keypad }

/-- The address in the index register, which is wider than the address space. -/
def address (s : Core) : Nat := (s.index % 0x1000).toNat

def fetch (s : Core) : Except Fault Opcode :=
  if h : s.pc.toNat + 1 < 0x1000 then
    .ok (.ofBytes s.memory.bytes[s.pc.toNat] s.memory.bytes[s.pc.toNat + 1])
  else .error (.fetchOutOfBounds s.pc)

end Core

end Chip8
