import Chip8.Core.Step
import Chip8.Proofs.Operands

namespace Chip8

theorem map_eq_ok_iff {ε α β : Type} {f : α → β} {e : Except ε α} {b : β} :
    e.map f = .ok b ↔ ∃ a, e = .ok a ∧ f a = b := by
  cases e <;> simp [Except.map]

theorem map_eq_error_iff {ε α β : Type} {f : α → β} {e : Except ε α} {c : ε} :
    e.map f = .error c ↔ e = .error c := by
  cases e <;> simp [Except.map]

def Condition.holdsOn (s : Core) : Condition → Bool
  | .holds x n => s.registers.read x == n
  | .lacks x n => s.registers.read x != n
  | .equal x y => s.registers.read x == s.registers.read y
  | .differ x y => s.registers.read x != s.registers.read y
  | .keyDown x => s.keypad.isPressed (s.registers.read x)
  | .keyUp x => !s.keypad.isPressed (s.registers.read x)

def Arithmetic.result (op : Arithmetic) (d : Dialect) (x y : UInt8) (v : Registers) : Registers :=
  let written := v.write x (op.value d (v.read x) (v.read y))
  match op.flag d (v.read x) (v.read y) with
  | some set => written.writeFlag set
  | none => written

namespace Core

def write (s : Core) (x value : UInt8) : Core := { s with registers := s.registers.write x value }

def skipIf (s : Core) (condition : Bool) : Core :=
  if condition then { s with pc := s.pc + 2 } else s

def moveIndex (s : Core) (d : Dialect) (x : UInt8) : Core :=
  if d.transferMovesIndex then { s with index := s.index + UInt16.ofNat (Registers.countTo x) }
  else s

def addIndex (s : Core) (d : Dialect) (x : UInt8) : Core :=
  let sum := s.index + (s.registers.read x).toUInt16
  if d.indexSetsFlag then
    { s with index := sum, registers := s.registers.writeFlag (0x1000 ≤ sum) }
  else { s with index := sum }

def jumpOffset (s : Core) (d : Dialect) (address : UInt16) : Except Fault Core :=
  let target := address.toNat + (s.registers.read (d.offsetRegister address)).toNat
  if target < 0x1000 then .ok { s with pc := UInt16.ofNat target }
  else .error (.outOfBounds target)

def drawn (s : Core) (x y : UInt8) (sprite : List UInt8) : Core :=
  let picture := s.screen.draw (s.registers.read x).toNat (s.registers.read y).toNat sprite
  { s with screen := picture.1, registers := s.registers.writeFlag picture.2 }

def draw (s : Core) (x y height : UInt8) : Except Fault Core :=
  (s.memory.readSlice s.address height.toNat).map (s.drawn x y)

/-- What an instruction makes of a core at one stroke, or the fault that keeps it from starting. -/
def effect (d : Dialect) (s : Core) : Instruction → Except Fault Core
  | .sys _ => .ok s
  | .clearScreen => .ok { s with screen := .blank }
  | .ret => s.stack.pop.map fun (target, stack) => { s with pc := target, stack }
  | .jump a => .ok { s with pc := a }
  | .call a => (s.stack.push s.pc a).map fun stack => { s with pc := a, stack }
  | .skip c => .ok (s.skipIf (c.holdsOn s))
  | .setByte x n => .ok (s.write x n)
  | .addByte x n => .ok (s.write x (s.registers.read x + n))
  | .combine op x y => .ok { s with registers := op.result d x y s.registers }
  | .setIndex a => .ok { s with index := a }
  | .jumpOffset a => s.jumpOffset d a
  | .random x mask => .ok { s.write x (s.random.next &&& mask) with random := s.random.advance }
  | .draw x y height => s.draw x y height
  | .readDelay x => .ok (s.write x s.timers.delay)
  | .awaitKey x => .ok { s with state := .awaitingKey x }
  | .setDelay x => .ok { s with timers := { s.timers with delay := s.registers.read x } }
  | .setSound x => .ok { s with timers := { s.timers with sound := s.registers.read x } }
  | .addIndex x => .ok (s.addIndex d x)
  | .pointGlyph x => .ok { s with index := glyphAddress (s.registers.read x) }
  | .storeDecimal x =>
      (s.memory.writeSlice s.address (decimalDigits (s.registers.read x))).map fun memory =>
        { s with memory }
  | .store x =>
      (s.memory.writeSlice s.address (s.registers.upTo x)).map fun memory =>
        { s with memory }.moveIndex d x
  | .load x =>
      (s.memory.readSlice s.address (Registers.countTo x)).map fun values =>
        { s with registers := s.registers.fill 0 values }.moveIndex d x

theorem skipIf_eq (s : Core) (condition : Bool) : ∃ pc, s.skipIf condition = { s with pc } := by
  cases condition with
  | false => exact ⟨_, rfl⟩
  | true => exact ⟨_, rfl⟩

theorem moveIndex_eq (s : Core) (d : Dialect) (x : UInt8) :
    ∃ index, s.moveIndex d x = { s with index } := by
  by_cases h : d.transferMovesIndex
  · exact ⟨_, if_pos h⟩
  · exact ⟨_, if_neg h⟩

theorem addIndex_eq (s : Core) (d : Dialect) (x : UInt8) :
    ∃ index registers, s.addIndex d x = { s with index, registers } := by
  by_cases h : d.indexSetsFlag
  · exact ⟨_, _, if_pos h⟩
  · exact ⟨_, s.registers, if_neg h⟩

theorem jumpOffset_eq_ok {s t : Core} {d : Dialect} {a : UInt16} (ht : s.jumpOffset d a = .ok t) :
    ∃ pc, t = { s with pc } := by
  simp only [jumpOffset] at ht
  split at ht <;> cases ht
  exact ⟨_, rfl⟩

structure SameControl (s t : Core) : Prop where
  pc_eq : t.pc = s.pc
  stack_eq : t.stack = s.stack
  state_eq : t.state = s.state

theorem moveIndex_sameControl (s : Core) (d : Dialect) (x : UInt8) :
    SameControl s (s.moveIndex d x) := by
  obtain ⟨index, h⟩ := s.moveIndex_eq d x
  rw [h]
  exact ⟨rfl, rfl, rfl⟩

theorem addIndex_sameControl (s : Core) (d : Dialect) (x : UInt8) :
    SameControl s (s.addIndex d x) := by
  obtain ⟨index, registers, h⟩ := s.addIndex_eq d x
  rw [h]
  exact ⟨rfl, rfl, rfl⟩

def stateAfter (s : Core) : Instruction → RunState
  | .awaitKey x => .awaitingKey x
  | _ => s.state

def randomAfter (s : Core) : Instruction → Random.Source
  | .random .. => s.random.advance
  | _ => s.random

def timersAfter (s : Core) : Instruction → Timers
  | .setDelay x => { s.timers with delay := s.registers.read x }
  | .setSound x => { s.timers with sound := s.registers.read x }
  | _ => s.timers

def stackAfter (s : Core) : Instruction → Except Fault CallStack
  | .ret => s.stack.pop.map Prod.snd
  | .call a => s.stack.push s.pc a
  | _ => .ok s.stack

def memoryAfter (s : Core) : Instruction → Except Fault Memory
  | .storeDecimal x => s.memory.writeSlice s.address (decimalDigits (s.registers.read x))
  | .store x => s.memory.writeSlice s.address (s.registers.upTo x)
  | _ => .ok s.memory

section

variable {d : Dialect} {s t : Core} {i : Instruction}

/-- What becomes of the parts that few instructions reach, and of the keypad, which none does. -/
theorem effect_eq (ht : s.effect d i = .ok t) :
    ∃ registers index pc stack memory screen,
      s.stackAfter i = .ok stack ∧ s.memoryAfter i = .ok memory ∧
      t = { s with
        registers, index, pc, stack, memory, screen
        state := s.stateAfter i, random := s.randomAfter i, timers := s.timersAfter i } := by
  cases i with
  | sys | clearScreen | jump | setByte | addByte | combine | setIndex | random | readDelay
  | awaitKey | setDelay | setSound | pointGlyph =>
      cases ht
      exact ⟨_, _, _, _, _, _, rfl, rfl, rfl⟩
  | skip c =>
      cases ht
      obtain ⟨pc, h⟩ := s.skipIf_eq (c.holdsOn s)
      exact ⟨_, _, _, _, _, _, rfl, rfl, h⟩
  | addIndex x =>
      cases ht
      obtain ⟨index, registers, h⟩ := s.addIndex_eq d x
      exact ⟨_, _, _, _, _, _, rfl, rfl, h⟩
  | jumpOffset a =>
      obtain ⟨pc, rfl⟩ := jumpOffset_eq_ok ht
      exact ⟨_, _, _, _, _, _, rfl, rfl, rfl⟩
  | ret =>
      obtain ⟨popped, hpop, rfl⟩ := map_eq_ok_iff.1 ht
      exact ⟨_, _, _, _, _, _, map_eq_ok_iff.2 ⟨popped, hpop, rfl⟩, rfl, rfl⟩
  | call a =>
      obtain ⟨stack, hpush, rfl⟩ := map_eq_ok_iff.1 ht
      exact ⟨_, _, _, _, _, _, hpush, rfl, rfl⟩
  | draw =>
      obtain ⟨sprite, -, rfl⟩ := map_eq_ok_iff.1 ht
      exact ⟨_, _, _, _, _, _, rfl, rfl, rfl⟩
  | storeDecimal x =>
      obtain ⟨memory, hmemory, rfl⟩ := map_eq_ok_iff.1 ht
      exact ⟨_, _, _, _, _, _, rfl, hmemory, rfl⟩
  | store x =>
      obtain ⟨memory, hmemory, rfl⟩ := map_eq_ok_iff.1 ht
      obtain ⟨index, h⟩ := moveIndex_eq { s with memory } d x
      exact ⟨_, _, _, _, _, _, rfl, hmemory, h⟩
  | load x =>
      obtain ⟨values, -, rfl⟩ := map_eq_ok_iff.1 ht
      obtain ⟨index, h⟩ := moveIndex_eq { s with registers := s.registers.fill 0 values } d x
      exact ⟨_, _, _, _, _, _, rfl, rfl, h⟩

theorem effect_state (ht : s.effect d i = .ok t) : t.state = s.stateAfter i := by
  obtain ⟨_, _, _, _, _, _, -, -, rfl⟩ := effect_eq ht
  rfl

theorem effect_random (ht : s.effect d i = .ok t) : t.random = s.randomAfter i := by
  obtain ⟨_, _, _, _, _, _, -, -, rfl⟩ := effect_eq ht
  rfl

theorem effect_timers (ht : s.effect d i = .ok t) : t.timers = s.timersAfter i := by
  obtain ⟨_, _, _, _, _, _, -, -, rfl⟩ := effect_eq ht
  rfl

theorem effect_stack (ht : s.effect d i = .ok t) : s.stackAfter i = .ok t.stack := by
  obtain ⟨_, _, _, _, _, _, hstack, -, rfl⟩ := effect_eq ht
  exact hstack

theorem effect_memory (ht : s.effect d i = .ok t) : s.memoryAfter i = .ok t.memory := by
  obtain ⟨_, _, _, _, _, _, -, hmemory, rfl⟩ := effect_eq ht
  exact hmemory

end

end Core

namespace Action

variable {d : Dialect} {s : Core}

def outcome (s : Core) : Except Fault Core → EStateM.Result Stop Core Unit
  | .ok t => .ok () t
  | .error f => .error (.fault f) s

theorem run_test {c : Condition} (hc : c.InRange) : c.test.run s = .ok (c.holdsOn s) s := by
  cases c with
  | holds x n | lacks x n | keyDown x | keyUp x =>
      simp only [Condition.test, Condition.holdsOn, EStateM.run_bind, EStateM.run_get,
        run_register hc, EStateM.run_pure]
  | equal x y | differ x y =>
      simp only [Condition.test, Condition.holdsOn, EStateM.run_bind, run_register hc.1,
        run_register hc.2, EStateM.run_pure]

theorem run_skipIf (h : s.pc.toNat + 2 < 0x10000) (condition : Bool) :
    (skipIf condition).run s = .ok () (s.skipIf condition) := by
  cases condition with
  | false => rfl
  | true => exact run_advance h

theorem run_apply {x y : UInt8} (hx : x.toNat < 16) (hy : y.toNat < 16) (op : Arithmetic) :
    (op.apply d x y).run s = .ok () { s with registers := op.result d x y s.registers } := by
  simp only [Arithmetic.apply, Arithmetic.result, EStateM.run_bind, run_register hx,
    run_register hy, run_setRegister hx]
  cases op.flag d (s.registers.read x) (s.registers.read y) with
  | none => rfl
  | some set => rfl

theorem run_moveIndex (x : UInt8) : (moveIndex d x).run s = .ok () (s.moveIndex d x) := by
  by_cases h : d.transferMovesIndex
  · rw [moveIndex, Core.moveIndex, if_pos h, if_pos h]
    rfl
  · rw [moveIndex, Core.moveIndex, if_neg h, if_neg h]
    rfl

theorem run_addIndex {x : UInt8} (hx : x.toNat < 16) :
    (addIndex d x).run s = .ok () (s.addIndex d x) := by
  simp only [addIndex, Core.addIndex, EStateM.run_bind, EStateM.run_get, run_register hx, setIndex,
    EStateM.run_modify]
  split <;> rfl

theorem offsetRegister_lt {a : UInt16} (ha : a.toNat < 0x1000) :
    (d.offsetRegister a).toNat < 16 := by
  rw [Dialect.offsetRegister]
  split
  · simp only [UInt16.toNat_toUInt8, UInt16.toNat_div, UInt16.reduceToNat]
    omega
  · decide

theorem run_jumpOffset {a : UInt16} (ha : a.toNat < 0x1000) :
    (jumpOffset d a).run s = outcome s (s.jumpOffset d a) := by
  simp only [jumpOffset, Core.jumpOffset, EStateM.run_bind, run_register (offsetRegister_lt ha)]
  split <;> rfl

theorem run_draw {x y : UInt8} (hx : x.toNat < 16) (hy : y.toNat < 16) (height : UInt8) :
    (draw x y height).run s = outcome s (s.draw x y height) := by
  simp only [draw, Core.draw, readPointed, EStateM.run_bind, EStateM.run_get, run_register hx,
    run_register hy]
  cases s.memory.readSlice s.address height.toNat with
  | error f => rfl
  | ok sprite => rfl

theorem run_writePointed (values : List UInt8) :
    (writePointed values).run s =
      outcome s ((s.memory.writeSlice s.address values).map fun memory => { s with memory }) := by
  simp only [writePointed, EStateM.run_bind, EStateM.run_get]
  cases s.memory.writeSlice s.address values with
  | error f => rfl
  | ok memory => rfl

theorem run_storeDecimal {x : UInt8} (hx : x.toNat < 16) :
    (execute d (.storeDecimal x)).run s = outcome s (s.effect d (.storeDecimal x)) := by
  simp only [execute, Core.effect, EStateM.run_bind, run_register hx, run_writePointed]

theorem run_store {x : UInt8} (hx : x.toNat < 16) :
    (execute d (.store x)).run s = outcome s (s.effect d (.store x)) := by
  simp only [execute, Core.effect, registersTo, EStateM.run_bind, EStateM.run_get,
    EStateM.run_pure, run_checkRegister hx, run_writePointed]
  cases s.memory.writeSlice s.address (s.registers.upTo x) with
  | error f => rfl
  | ok memory => exact run_moveIndex x

theorem run_load {x : UInt8} (hx : x.toNat < 16) :
    (execute d (.load x)).run s = outcome s (s.effect d (.load x)) := by
  simp only [execute, Core.effect, readPointed, setRegistersTo, EStateM.run_bind,
    EStateM.run_get, EStateM.run_modify, run_checkRegister hx]
  cases s.memory.readSlice s.address (Registers.countTo x) with
  | error f => rfl
  | ok values => exact run_moveIndex x

/-- Carried out access by access, an instruction comes to its effect. It meets no overrun if its
operands fit into an opcode and there is room for the program counter to move on. -/
theorem run_execute {i : Instruction} (hi : i.InRange) (hpc : s.pc.toNat + 2 < 0x10000) :
    (execute d i).run s = outcome s (s.effect d i) := by
  cases i with
  | sys | clearScreen | jump | setIndex | awaitKey => rfl
  | ret =>
      simp only [execute, Core.effect, pop, EStateM.run_bind, EStateM.run_get]
      cases s.stack.pop with
      | error f => rfl
      | ok popped => rfl
  | call a =>
      simp only [execute, Core.effect, push, EStateM.run_bind, EStateM.run_get]
      cases s.stack.push s.pc a with
      | error f => rfl
      | ok stack => rfl
  | skip c =>
      simp only [execute, Core.effect, EStateM.run_bind, run_test hi, run_skipIf hpc, outcome]
  | setByte x n => exact run_setRegister hi n
  | addByte x n =>
      simp only [execute, EStateM.run_bind, run_register hi, run_setRegister hi]
      rfl
  | combine op x y => exact run_apply hi.1 hi.2 op
  | jumpOffset a => exact run_jumpOffset hi
  | random x mask =>
      simp only [execute, randomByte, EStateM.run_bind, EStateM.run_modifyGet, run_setRegister hi]
      rfl
  | draw x y height => exact run_draw hi.1 hi.2.1 height
  | readDelay x =>
      simp only [execute, EStateM.run_bind, EStateM.run_get, run_setRegister hi]
      rfl
  | setDelay x | setSound x | pointGlyph x =>
      simp only [execute, EStateM.run_bind, run_register hi]
      rfl
  | addIndex x => exact run_addIndex hi
  | storeDecimal x => exact run_storeDecimal hi
  | store x => exact run_store hi
  | load x => exact run_load hi

end Action

end Chip8
