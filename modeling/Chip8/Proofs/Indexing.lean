import Chip8.Proofs.Confinement
import Chip8.Proofs.ControlFlow

namespace Chip8

namespace Core

variable {d : Dialect} {s : Core} {x : UInt8}

/-- What a register and the index come to together, the index being as wide as it has to be. -/
def indexSum (s : Core) (x : UInt8) : Nat := s.index.toNat + (s.registers.read x).toNat

theorem toNat_index_addIndex (d : Dialect) (s : Core) (x : UInt8) :
    (s.addIndex d x).index.toNat = s.indexSum x % 0x10000 := by
  have hindex : (s.addIndex d x).index = s.index + (s.registers.read x).toUInt16 := by
    rw [addIndex]
    split <;> rfl
  rw [hindex, UInt16.toNat_add, UInt8.toNat_toUInt16]
  rfl

/-- The flag is about the sum that has wrapped. -/
theorem read_flag_addIndex (hd : d.indexSetsFlag) : (s.addIndex d x).registers.read 0xF =
    if 0xFFF < s.indexSum x % 0x10000 then 1 else 0 := by
  rw [← toNat_index_addIndex d, addIndex, if_pos hd, Registers.read_writeFlag_self]
  simp only [decide_eq_true_eq, UInt16.le_iff_toNat_le]
  rfl

theorem indexSum_lt (s : Core) (x : UInt8) : s.indexSum x < 0x100FF := by
  have hindex := s.index.toNat_lt
  have hbyte := (s.registers.read x).toNat_lt
  rw [indexSum]
  omega

end Core

namespace Machine

variable {m : Machine} {x : UInt8}

/-- Adding to the index sets the flag where the sum is above the address space, and clears it where
it is not. But a sum that is above what the index can hold has the flag cleared too, and the index
goes on from zero. -/
theorem addIndex_flagged (hm : m.isLoaded) (hs : m.state = .running)
    (hi : m.instructionAt m.pc.toNat = some (.addIndex x))
    (hd : m.config.dialect.indexSetsFlag) :
    let n := m.step.next
    m.step.answer = .ok .advanced ∧
      (m.indexSum x ≤ 0xFFFF →
        n.registers.read 0xF = (if 0xFFF < m.indexSum x then 1 else 0) ∧
        (n.registers.read 0xF = 0 → n.index.toNat = m.indexSum x ∧ n.index.toNat ≤ 0xFFF)) ∧
      (0xFFFF < m.indexSum x → n.registers.read 0xF = 0 ∧
        n.index.toNat + 0x10000 = m.indexSum x ∧ n.index.toNat < 0xFF) := by
  have hlt := m.indexSum_lt x
  have hindex := Core.toNat_index_addIndex m.config.dialect { m.toCore with pc := m.pc + 2 } x
  have hflag := Core.read_flag_addIndex (s := { m.toCore with pc := m.pc + 2 }) (x := x) hd
  rw [show Core.indexSum { m.toCore with pc := m.pc + 2 } x = m.indexSum x from rfl] at hindex hflag
  rw [step_of_effect hm hs hi rfl]
  refine ⟨rfl, fun hfits => ?_, fun hwraps => ?_⟩
  · rw [Nat.mod_eq_of_lt (Nat.lt_succ_of_le hfits)] at hindex hflag
    refine ⟨hflag, fun hclear => ⟨hindex, ?_⟩⟩
    rw [hflag] at hclear
    have hin : ¬ 0xFFF < m.indexSum x := by
      intro hout
      rw [if_pos hout] at hclear
      cases hclear
    exact hindex ▸ Nat.le_of_not_lt hin
  · have hsmall : m.indexSum x % 0x10000 + 0x10000 = m.indexSum x := by omega
    refine ⟨hflag.trans (if_neg (by omega)), ?_⟩
    rw [hindex]
    omega

def indexingFrom (index : UInt16) (byte : UInt8) : Machine :=
  { indexing with index, registers := Registers.zero.write 3 byte }

theorem addIndex_flagged_indexing :
    (indexingFrom 0xFFF 1).step.next.registers.read 0xF = 1 ∧
      (indexingFrom 0xF00 0xFF).step.next.index.toNat = 0xFFF ∧
      (indexingFrom 0xFFFF 0xFF).step.next.registers.read 0xF = 0 := by
  have hi (index : UInt16) (byte : UInt8) :
      (indexingFrom index byte).instructionAt 0x200 = some (.addIndex 3) :=
    (instructionAt_fresh { dialect := .chip48 } (.ofSeed 0) _ (k := 0) (by decide)).trans
      (by decide)
  have hflagged (index : UInt16) (byte : UInt8) :=
    addIndex_flagged (m := indexingFrom index byte) rfl rfl (hi index byte) rfl
  refine ⟨((hflagged 0xFFF 1).2.1 (by decide)).1, ?_, ((hflagged 0xFFFF 0xFF).2.2 (by decide)).1⟩
  obtain ⟨hflag, hindex⟩ := (hflagged 0xF00 0xFF).2.1 (by decide)
  exact (hindex (hflag.trans (if_neg (by decide)))).1

def climb : Array UInt8 :=
  -- Adds `0xFF` to the index for ever.
  #[0x60, 0xFF, 0xF0, 0x1E, 0x12, 0x02]

def climbing (pc index : UInt16) (registers : Registers) : Machine :=
  { fresh { dialect := .chip48 } (.ofSeed 0) (some climb) with pc, index, registers }

variable {pc index : UInt16} {registers : Registers}

theorem climbing_instructionAt (pc index : UInt16) (registers : Registers) {k : Nat}
    (h : k < 0xDFF) : (climbing pc index registers).instructionAt (0x200 + k) =
      Instruction.decode (.ofBytes (climb.getD k 0) (climb.getD (k + 1) 0)) :=
  instructionAt_fresh { dialect := .chip48 } (.ofSeed 0) climb h

theorem climbing_starts :
    (climbing 0x200 0 .zero).step.next = climbing 0x202 0 (Registers.zero.write 0 0xFF) := by
  have hi : (climbing 0x200 0 .zero).instructionAt 0x200 = some (.setByte 0 0xFF) :=
    (climbing_instructionAt _ _ _ (k := 0) (by decide)).trans (by decide)
  exact step_next_of_effect (m := climbing 0x200 0 .zero) rfl rfl hi rfl

theorem climbing_adds (index : UInt16) (h : registers.read 0 = 0xFF) :
    (climbing 0x202 index registers).step.next =
      climbing 0x204 (index + 0xFF) (registers.writeFlag (0x1000 ≤ index + 0xFF)) := by
  have hi : (climbing 0x202 index registers).instructionAt 0x202 = some (.addIndex 0) :=
    (climbing_instructionAt _ _ _ (k := 2) (by decide)).trans (by decide)
  have hsum : index + (registers.read 0).toUInt16 = index + 0xFF := by
    rw [h]
    rfl
  rw [step_next_of_effect (m := climbing 0x202 index registers) rfl rfl hi rfl, ← hsum]
  rfl

theorem climbing_returns (index : UInt16) (registers : Registers) :
    (climbing 0x204 index registers).step.next = climbing 0x202 index registers := by
  have hi : (climbing 0x204 index registers).instructionAt 0x204 = some (.jump 0x202) :=
    (climbing_instructionAt _ _ _ (k := 4) (by decide)).trans (by decide)
  exact step_next_of_effect (m := climbing 0x204 index registers) rfl rfl hi rfl

theorem climbing_round (index : UInt16) (h : registers.read 0 = 0xFF) :
    ∃ later, later.read 0 = 0xFF ∧
      (climbing 0x202 index registers).stepped 2 = climbing 0x202 (index + 0xFF) later := by
  refine ⟨registers.writeFlag (0x1000 ≤ index + 0xFF), ?_, ?_⟩
  · rw [Registers.read_writeFlag_of_ne _ _ (by decide) (by decide), h]
  · show (climbing 0x202 index registers).step.next.step.next = _
    rw [climbing_adds index h, climbing_returns]

theorem climbing_rounds (rounds : Nat) : ∀ (index : UInt16) {registers : Registers},
    registers.read 0 = 0xFF → ∃ later, later.read 0 = 0xFF ∧
      (climbing 0x202 index registers).stepped (2 * rounds) =
        climbing 0x202 (index + UInt16.ofNat (0xFF * rounds)) later := by
  induction rounds with
  | zero =>
      intro index registers h
      refine ⟨registers, h, ?_⟩
      show climbing 0x202 index registers = climbing 0x202 (index + 0) registers
      rw [UInt16.add_zero]
  | succ n ih =>
      intro index registers h
      obtain ⟨next, hnext, hround⟩ := climbing_round index h
      obtain ⟨later, hlater, hrest⟩ := ih (index + 0xFF) hnext
      refine ⟨later, hlater, ?_⟩
      rw [Nat.mul_succ, Nat.add_comm, stepped_add, hround, hrest, UInt16.add_assoc,
        Nat.mul_succ, Nat.add_comm, UInt16.ofNat_add]
      rfl

/-- A program comes to where a sum leaves the address space and the flag is cleared. -/
theorem addIndex_unflagged :
    let m := ((powerOn { dialect := .chip48 } (.ofSeed 0)).performAll [.load climb]).stepped 515
    m.isLoaded ∧ m.state = .running ∧ m.instructionAt m.pc.toNat = some (.addIndex 0) ∧
      m.config.dialect.indexSetsFlag ∧ 0xFFF < m.index.toNat + (m.registers.read 0).toNat ∧
      m.step.next.registers.read 0xF = 0 ∧
      m.step.next.index.toNat ≠ m.index.toNat + (m.registers.read 0).toNat := by
  intro m
  have haddend : (Registers.zero.write 0 0xFF).read 0 = 0xFF := by decide
  obtain ⟨registers, h, hlast⟩ := climbing_rounds 257 0 haddend
  have hstart : m = (climbing 0x202 0 (Registers.zero.write 0 0xFF)).stepped (2 * 257) := by
    show Machine.stepped _ (1 + 2 * 257) = _
    rw [performAll_load _ _ (by decide), stepped_add]
    exact congrArg (Machine.stepped · (2 * 257)) climbing_starts
  have hm : m = climbing 0x202 0xFFFF registers := by
    rw [hstart, hlast]
    rfl
  rw [hm, climbing_adds _ h]
  have hi : (climbing 0x202 0xFFFF registers).instructionAt 0x202 = some (.addIndex 0) :=
    (climbing_instructionAt _ _ _ (k := 2) (by decide)).trans (by decide)
  have hsum : (climbing 0x202 0xFFFF registers).index.toNat +
      ((climbing 0x202 0xFFFF registers).registers.read 0).toNat = 0x100FE := by
    rw [show (climbing 0x202 0xFFFF registers).registers.read 0 = 0xFF from h]
    rfl
  rw [hsum]
  exact ⟨rfl, rfl, hi, rfl, by decide, Registers.read_writeFlag_self _ _, show 0xFE ≠ 0x100FE by decide⟩

end Machine

end Chip8
