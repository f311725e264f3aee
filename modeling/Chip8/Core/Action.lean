import Chip8.Core.Basic

namespace Chip8

/-- An access that there is no place for. A fault is a mistake of the program; this would be one of
the machine. -/
inductive Overrun
  | register (x : UInt8)
  | programCounter (pc : UInt16)
  deriving DecidableEq, Repr

inductive Stop
  | fault (fault : Fault)
  | overrun (overrun : Overrun)
  deriving DecidableEq, Repr

/-- Work on a core, one access after the other. A stop undoes nothing: what was changed before it
stays changed. -/
abbrev Action := EStateM Stop Core

namespace Action

def raise {α : Type} (f : Fault) : Action α := throw (.fault f)

def ofExcept {α : Type} : Except Fault α → Action α
  | .ok a => pure a
  | .error f => raise f

def checkRegister (x : UInt8) : Action Unit :=
  if x.toNat < 16 then pure () else throw (.overrun (.register x))

def register (x : UInt8) : Action UInt8 := do
  checkRegister x
  return (← get).registers.read x

def setRegister (x value : UInt8) : Action Unit := do
  checkRegister x
  modify fun s => { s with registers := s.registers.write x value }

def registersTo (x : UInt8) : Action (List UInt8) := do
  checkRegister x
  return (← get).registers.upTo x

def setRegistersTo (x : UInt8) (values : List UInt8) : Action Unit := do
  checkRegister x
  modify fun s => { s with registers := s.registers.fill 0 values }

def setFlag (set : Bool) : Action Unit :=
  modify fun s => { s with registers := s.registers.writeFlag set }

def setIndex (index : UInt16) : Action Unit := modify fun s => { s with index }

def setState (state : RunState) : Action Unit := modify fun s => { s with state }

def jumpTo (target : UInt16) : Action Unit := modify fun s => { s with pc := target }

def advance : Action Unit := do
  let s ← get
  if s.pc.toNat + 2 < 0x10000 then jumpTo (s.pc + 2) else throw (.overrun (.programCounter s.pc))

def push (target : UInt16) : Action Unit := do
  let s ← get
  let stack ← ofExcept (s.stack.push s.pc target)
  set { s with stack }

def pop : Action UInt16 := do
  let s ← get
  let popped ← ofExcept s.stack.pop
  set { s with stack := popped.2 }
  return popped.1

def readPointed (count : Nat) : Action (List UInt8) := do
  let s ← get
  ofExcept (s.memory.readSlice s.address count)

def writePointed (values : List UInt8) : Action Unit := do
  let s ← get
  let memory ← ofExcept (s.memory.writeSlice s.address values)
  set { s with memory }

def drawSprite (x y : Nat) (sprite : List UInt8) : Action Bool :=
  modifyGet fun s =>
    let drawn := s.screen.draw x y sprite
    (drawn.2, { s with screen := drawn.1 })

def randomByte : Action UInt8 :=
  modifyGet fun s => (s.random.next, { s with random := s.random.advance })

variable {s : Core} {x : UInt8}

theorem run_checkRegister (h : x.toNat < 16) : (checkRegister x).run s = .ok () s := by
  simp [checkRegister, h]

theorem run_register (h : x.toNat < 16) :
    (register x).run s = .ok (s.registers.read x) s := by
  simp only [register, EStateM.run_bind, run_checkRegister h, EStateM.run_get, EStateM.run_pure]

theorem run_setRegister (h : x.toNat < 16) (value : UInt8) :
    (setRegister x value).run s = .ok () { s with registers := s.registers.write x value } := by
  simp only [setRegister, EStateM.run_bind, run_checkRegister h, EStateM.run_modify]

theorem run_advance (h : s.pc.toNat + 2 < 0x10000) :
    advance.run s = .ok () { s with pc := s.pc + 2 } := by
  simp [advance, h, jumpTo]

end Action

end Chip8
