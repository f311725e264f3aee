import Chip8.Proofs.Execution
import Chip8.Proofs.Slices

namespace Chip8

/-- The parts of a core that instructions change, but for the program counter, which each of them
moves. -/
inductive Part
  | byte (a : Nat)
  | register (y : UInt8)
  | index
  | stack
  | state
  | random
  | screen
  | delay
  | sound

def Arithmetic.SetsFlag (d : Dialect) : Arithmetic → Prop
  | .copy => False
  | .or | .and | .xor => d.logicClearsFlag
  | .add | .sub | .shiftRight | .subFrom | .shiftLeft => True

def Instruction.SetsRegister (d : Dialect) (y : UInt8) : Instruction → Prop
  | .setByte x _ | .addByte x _ | .random x _ | .readDelay x => lowDigit y = lowDigit x
  | .combine op x _ => lowDigit y = lowDigit x ∨ lowDigit y = lowDigit 0xF ∧ op.SetsFlag d
  | .load x => lowDigit y ≤ lowDigit x
  | .draw .. => lowDigit y = lowDigit 0xF
  | .addIndex _ => lowDigit y = lowDigit 0xF ∧ d.indexSetsFlag
  | _ => False

/-- Whether an instruction may change a part, the index being at an address. -/
def Instruction.Reaches (d : Dialect) (address : Nat) : Instruction → Part → Prop
  | .storeDecimal _, .byte a => address ≤ a ∧ a ≤ address + 2
  | .store x, .byte a => address ≤ a ∧ a ≤ address + x.toNat
  | i, .register y => i.SetsRegister d y
  | .setIndex _, .index | .addIndex _, .index | .pointGlyph _, .index => True
  | .store _, .index | .load _, .index => d.transferMovesIndex
  | .call _, .stack | .ret, .stack => True
  | .awaitKey _, .state => True
  | .random .., .random => True
  | .clearScreen, .screen | .draw .., .screen => True
  | .setDelay _, .delay => True
  | .setSound _, .sound => True
  | _, _ => False

namespace Registers

variable {x y : UInt8}

theorem read_write_of_lowDigit_ne (h : lowDigit y ≠ lowDigit x) (v : Registers) (b : UInt8) :
    (v.write x b).read y = v.read y := by
  rw [read_write, if_neg h.symm]

theorem read_writeFlag_of_lowDigit_ne (h : lowDigit y ≠ lowDigit 0xF) (v : Registers) (set : Bool) :
    (v.writeFlag set).read y = v.read y :=
  v.read_write_of_lowDigit_ne h _

theorem read_result {op : Arithmetic} {d : Dialect} (hx : lowDigit y ≠ lowDigit x)
    (hflag : ¬ (lowDigit y = lowDigit 0xF ∧ op.SetsFlag d)) (v : Registers) (z : UInt8) :
    (op.result d x z v).read y = v.read y := by
  have hwritten (b : UInt8) := v.read_write_of_lowDigit_ne hx b
  -- the flag goes to a register of its own, or there is none
  have hset {b : UInt8} (set : Bool) (h : op.SetsFlag d) :
      ((v.write x b).writeFlag set).read y = v.read y :=
    (read_writeFlag_of_lowDigit_ne (fun hy => hflag ⟨hy, h⟩) _ set).trans (hwritten b)
  cases op with
  | copy => exact hwritten _
  | add | sub | shiftRight | subFrom | shiftLeft => exact hset _ trivial
  | or | and | xor =>
      rw [Arithmetic.result, Arithmetic.flag]
      by_cases h : d.logicClearsFlag
      · rw [if_pos h]
        exact hset _ h
      · rw [if_neg h]
        exact hwritten _

end Registers

namespace Core

variable {d : Dialect} {s t : Core} {i : Instruction} {part : Part}

def SameAt (s t : Core) : Part → Prop
  | .byte a => t.memory.read a = s.memory.read a
  | .register y => t.registers.read y = s.registers.read y
  | .index => t.index = s.index
  | .stack => t.stack = s.stack
  | .state => t.state = s.state
  | .random => t.random = s.random
  | .screen => t.screen = s.screen
  | .delay => t.timers.delay = s.timers.delay
  | .sound => t.timers.sound = s.timers.sound

theorem sameAt_moved {pc : UInt16} : { s with pc }.SameAt t part ↔ s.SameAt t part := by
  cases part <;> exact Iff.rfl

theorem SameAt.moveIndex {x : UInt8} (ht : s.SameAt t part)
    (h : part = .index → ¬ d.transferMovesIndex) : s.SameAt (t.moveIndex d x) part := by
  by_cases hmoves : d.transferMovesIndex
  · obtain ⟨index, hindex⟩ := t.moveIndex_eq d x
    rw [hindex]
    cases part with
    | index => exact absurd hmoves (h rfl)
    | _ => exact ht
  · rw [Core.moveIndex, if_neg hmoves]
    exact ht

theorem effect_sameAt (hi : i.InRange) (ht : s.effect d i = .ok t)
    (h : ¬ i.Reaches d s.address part) : s.SameAt t part := by
  cases i with
  | sys | jump =>
      cases ht
      cases part with
      | _ => rfl
  | skip c =>
      cases ht
      obtain ⟨pc, hpc⟩ := s.skipIf_eq (c.holdsOn s)
      rw [hpc]
      cases part with
      | _ => rfl
  | jumpOffset a =>
      obtain ⟨pc, rfl⟩ := jumpOffset_eq_ok ht
      cases part with
      | _ => rfl
  | clearScreen =>
      cases ht
      cases part with
      | screen => exact absurd trivial h
      | _ => rfl
  | ret | call =>
      obtain ⟨_, -, rfl⟩ := map_eq_ok_iff.1 ht
      cases part with
      | stack => exact absurd trivial h
      | _ => rfl
  | setByte | addByte | readDelay =>
      cases ht
      cases part with
      | register y => exact Registers.read_write_of_lowDigit_ne h _ _
      | _ => rfl
  | combine op x z =>
      cases ht
      cases part with
      | register y => exact Registers.read_result (not_or.1 h).1 (not_or.1 h).2 _ z
      | _ => rfl
  | random =>
      cases ht
      cases part with
      | register y => exact Registers.read_write_of_lowDigit_ne h _ _
      | random => exact absurd trivial h
      | _ => rfl
  | setIndex | pointGlyph =>
      cases ht
      cases part with
      | index => exact absurd trivial h
      | _ => rfl
  | awaitKey =>
      cases ht
      cases part with
      | state => exact absurd trivial h
      | _ => rfl
  | setDelay =>
      cases ht
      cases part with
      | delay => exact absurd trivial h
      | _ => rfl
  | setSound =>
      cases ht
      cases part with
      | sound => exact absurd trivial h
      | _ => rfl
  | draw =>
      obtain ⟨_, -, rfl⟩ := map_eq_ok_iff.1 ht
      cases part with
      | screen => exact absurd trivial h
      | register y => exact Registers.read_writeFlag_of_lowDigit_ne h _ _
      | _ => rfl
  | addIndex x =>
      cases ht
      by_cases hsets : d.indexSetsFlag
      · rw [addIndex, if_pos hsets]
        cases part with
        | index => exact absurd trivial h
        | register y =>
            exact Registers.read_writeFlag_of_lowDigit_ne (fun hy => h ⟨hy, hsets⟩) _ _
        | _ => rfl
      · rw [addIndex, if_neg hsets]
        cases part with
        | index => exact absurd trivial h
        | _ => rfl
  | storeDecimal x =>
      obtain ⟨memory, hmemory, rfl⟩ := map_eq_ok_iff.1 ht
      cases part with
      | byte a =>
          have ha : a < s.address ∨ s.address + 2 < a := by
            simpa only [Instruction.Reaches, not_and_or, Nat.not_le] using h
          exact Memory.read_writeSlice_of_outside hmemory ha
      | _ => rfl
  | store x =>
      obtain ⟨memory, hmemory, rfl⟩ := map_eq_ok_iff.1 ht
      refine SameAt.moveIndex ?_ (by rintro rfl; exact h)
      cases part with
      | byte a =>
          have ha : a < s.address ∨ s.address + x.toNat < a := by
            simpa only [Instruction.Reaches, not_and_or, Nat.not_le] using h
          apply Memory.read_writeSlice_of_outside hmemory
          rw [Registers.length_upTo hi]
          exact ha
      | _ => rfl
  | load x =>
      obtain ⟨values, hvalues, rfl⟩ := map_eq_ok_iff.1 ht
      refine SameAt.moveIndex ?_ (by rintro rfl; exact h)
      cases part with
      | register y =>
          have hy : values.length ≤ (lowDigit y).val := by
            rw [Memory.length_of_readSlice hvalues]
            exact Nat.lt_of_not_le h
          exact (s.registers.read_fill 0 values y).trans (List.getD_eq_default _ _ hy)
      | _ => rfl

end Core

namespace Machine

/-- A step that carries out an instruction changes nothing else than what the instruction reaches,
and no instruction reaches the keypad or what the machine holds beside its core. -/
theorem step_confined {m : Machine} {p : Progress} (hm : m.isLoaded) (hs : m.state = .running)
    (hp : m.step.answer = .ok p) :
    let n := m.step.next
    ∃ i, m.instructionAt m.pc.toNat = some i ∧
      (∀ part, ¬ i.Reaches m.config.dialect m.address part → m.toCore.SameAt n.toCore part) ∧
      n.keypad = m.keypad ∧ n.program = m.program ∧ n.isLoaded = m.isLoaded ∧
      n.config = m.config := by
  intro n
  obtain ⟨i, t, hi, ht, hnext⟩ := exists_effect_of_step hm hs hp
  have hn : n = { m with toCore := t } := hnext
  rw [hn]
  refine ⟨i, hi, ?_, ?_⟩
  · intro part hpart
    exact Core.sameAt_moved.1 (Core.effect_sameAt (Core.instructionAt_inRange hi) ht hpart)
  · obtain ⟨_, _, _, _, _, _, -, -, rfl⟩ := Core.effect_eq ht
    exact ⟨rfl, rfl, rfl, rfl⟩

def indexing : Machine := fresh { dialect := .chip48 } (.ofSeed 0) (some #[0xF3, 0x1E])

theorem step_confined_indexing :
    let n := indexing.step.next
    (∀ a, n.memory.read a = indexing.memory.read a) ∧ n.stack = indexing.stack ∧
      ∀ y, lowDigit y ≠ lowDigit 0xF → n.registers.read y = indexing.registers.read y := by
  intro n
  have hi : indexing.instructionAt 0x200 = some (.addIndex 3) :=
    (instructionAt_fresh _ _ _ (k := 0) (by decide)).trans (by decide)
  have hp : indexing.step.answer = .ok .advanced := by
    rw [step_of_effect (m := indexing) rfl rfl hi rfl]
    rfl
  obtain ⟨i, hat, hsame, -⟩ := step_confined (m := indexing) rfl rfl hp
  cases hat.symm.trans hi
  exact ⟨fun a => hsame (.byte a) id, hsame .stack id, fun y hy => hsame (.register y) (hy ·.1)⟩

end Machine

end Chip8
