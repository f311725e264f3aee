import Chip8.Proofs.Execution

namespace Chip8

inductive Dialect.Point
  | shift
  | logic
  | transfer
  | jump
  | index

namespace Dialect

def decides (d : Dialect) : Point → Bool
  | .shift => d.shiftsSecond
  | .logic => d.logicClearsFlag
  | .transfer => d.transferMovesIndex
  | .jump => d.jumpNamesRegister
  | .index => d.indexSetsFlag

theorem shiftOperand_self (d : Dialect) (x : UInt8) : d.shiftOperand x x = x := ite_self x

end Dialect

/-- The point that an instruction hangs on. A shift hangs on none if both its registers hold the
same, nor does a jump that adds the same in either case. -/
def Instruction.hangsOn (v : Registers) : Instruction → Option Dialect.Point
  | .combine .shiftRight x y | .combine .shiftLeft x y =>
      if v.read x = v.read y then none else some .shift
  | .combine .or _ _ | .combine .and _ _ | .combine .xor _ _ => some .logic
  | .store _ | .load _ => some .transfer
  | .jumpOffset a => if v.read 0 = v.read (a / 0x100).toUInt8 then none else some .jump
  | .addIndex _ => some .index
  | _ => none

variable {d d' : Dialect}

theorem Arithmetic.result_congr {op : Arithmetic} {x y : UInt8} {v : Registers}
    (h : ∀ p, (Instruction.combine op x y).hangsOn v = some p → d.decides p = d'.decides p) :
    op.result d x y v = op.result d' x y v := by
  have hshift (hop : (Instruction.combine op x y).hangsOn v =
      if v.read x = v.read y then none else some .shift) :
      d.shiftOperand (v.read x) (v.read y) = d'.shiftOperand (v.read x) (v.read y) := by
    by_cases hsame : v.read x = v.read y
    · rw [hsame, d.shiftOperand_self, d'.shiftOperand_self]
    · have hp : d.shiftsSecond = d'.shiftsSecond := h .shift (hop.trans (if_neg hsame))
      rw [Dialect.shiftOperand, Dialect.shiftOperand, hp]
  cases op with
  | copy | add | sub | subFrom => rfl
  | or | and | xor =>
      have hp : d.logicClearsFlag = d'.logicClearsFlag := h .logic rfl
      simp only [result, value, flag, hp]
  | shiftRight | shiftLeft => simp only [result, value, flag, hshift rfl]

namespace Core

variable {s : Core} {i : Instruction}

theorem moveIndex_congr (hp : d.transferMovesIndex = d'.transferMovesIndex) (s : Core) (x : UInt8) :
    s.moveIndex d x = s.moveIndex d' x := by
  rw [moveIndex, moveIndex, hp]

theorem read_offsetRegister_congr {a : UInt16} (h : ∀ p,
      (Instruction.jumpOffset a).hangsOn s.registers = some p → d.decides p = d'.decides p) :
    s.registers.read (d.offsetRegister a) = s.registers.read (d'.offsetRegister a) := by
  rw [Dialect.offsetRegister, Dialect.offsetRegister]
  by_cases hsame : s.registers.read 0 = s.registers.read (a / 0x100).toUInt8
  · rw [apply_ite s.registers.read, apply_ite s.registers.read, ← hsame, ite_self, ite_self]
  · have hp : d.jumpNamesRegister = d'.jumpNamesRegister := h .jump (if_neg hsame)
    rw [hp]

theorem effect_congr (h : ∀ p, i.hangsOn s.registers = some p → d.decides p = d'.decides p) :
    s.effect d i = s.effect d' i := by
  cases i with
  | sys | clearScreen | ret | jump | call | skip | setByte | addByte | setIndex | random | draw
  | readDelay | awaitKey | setDelay | setSound | pointGlyph | storeDecimal => rfl
  | combine op x y => rw [effect, effect, Arithmetic.result_congr h]
  | jumpOffset a =>
      have htarget := read_offsetRegister_congr h
      simp only [effect, jumpOffset, htarget]
  | addIndex x =>
      have hp : d.indexSetsFlag = d'.indexSetsFlag := h .index rfl
      simp only [effect, addIndex, hp]
  | store x | load x => simp only [effect, moveIndex_congr (h .transfer rfl)]

theorem step_congr (h : s.state = .running → ∀ i p, s.instructionAt s.pc.toNat = some i →
      i.hangsOn s.registers = some p → d.decides p = d'.decides p) : s.step d = s.step d' := by
  cases hs : s.state with
  | running =>
      have hstep := running_step d' hs
      generalize s.step d' = t at hstep
      apply Steps.step_eq
      cases hstep with
      | unfetched _ hw => exact .unfetched hs hw
      | undecoded w _ hw hi => exact .undecoded w hs hw hi
      | executed i t _ hi ht =>
          rw [← effect_congr (s := { s with pc := s.pc + 2 }) fun p => h hs i p hi] at ht
          exact .executed i t hs hi ht
      | faulted i f _ hi hf =>
          rw [← effect_congr (s := { s with pc := s.pc + 2 }) fun p => h hs i p hi] at hf
          exact .faulted i f hs hi hf
      | waiting _ hx | keyed _ _ hx | stopped _ hx => cases hs.symm.trans hx
  | awaitingKey x => rw [step_of_awaiting hs, step_of_awaiting hs]
  | halted f => rw [(Steps.stopped f hs).step_eq, (Steps.stopped f hs).step_eq]

end Core

namespace Machine

variable {m : Machine} {op : Operation}

def withDialect (d : Dialect) (m : Machine) : Machine :=
  { m with config := { m.config with dialect := d } }

/-- Another dialect agrees on what the next step hangs on. -/
def Agrees (d : Dialect) (m : Machine) : Prop :=
  ∀ i p, m.attempts = some i → i.hangsOn m.registers = some p →
    m.config.dialect.decides p = d.decides p

theorem agrees_of_hangsOn {i : Instruction} (hi : m.attempts = some i)
    (h : i.hangsOn m.registers = none) (d : Dialect) : m.Agrees d := by
  intro j p hj hp
  cases hi.symm.trans hj
  cases h.symm.trans hp

theorem step_withDialect (h : m.Agrees d) : (m.withDialect d).step =
    ⟨m.step.answer, m.step.next.withDialect d, m.step.log⟩ := by
  by_cases hm : m.isLoaded
  · have hcore : m.toCore.step m.config.dialect = m.toCore.step d := by
      apply Core.step_congr
      intro hs i p hi
      exact h i p ((attempts_eq hm hs).trans hi)
    rw [step_of_isLoaded hm, step_of_isLoaded (m := m.withDialect d) hm, hcore]
    rfl
  · rw [step_of_not_isLoaded hm, step_of_not_isLoaded (m := m.withDialect d) hm]

theorem reload_withDialect (m : Machine) (d : Dialect) : (m.withDialect d).reload =
    ⟨(), m.reload.next.withDialect d, m.reload.log⟩ := by
  obtain ⟨core, config, program⟩ := m
  simp only [withDialect, reload]
  cases program with
  | none => rfl
  | some p =>
      simp only
      cases Memory.initial.load p 0x200 with
      | ok memory => rfl
      | error e => rfl

theorem reset_withDialect (m : Machine) (d : Dialect) : (m.withDialect d).reset =
    ⟨m.reset.answer, m.reset.next.withDialect d, m.reset.log⟩ := by
  simp only [reset, reload_withDialect]
  generalize m.reload = r
  rfl

theorem load_withDialect (m : Machine) (d : Dialect) (p : Array UInt8) :
    (m.withDialect d).load p =
      ⟨(m.load p).answer, (m.load p).next.withDialect d, (m.load p).log⟩ := by
  have hfresh (program : Option (Array UInt8)) :
      fresh (m.withDialect d).config (m.withDialect d).random program =
        (fresh m.config m.random program).withDialect d := rfl
  simp only [load_eq, hfresh]
  split
  · rfl
  · rfl

theorem withDialect_follows (h : op = .step → m.Agrees d) : Follows (withDialect d) m op := by
  rw [Follows]
  cases op with
  | load p =>
      simp only [perform, load_withDialect]
      cases (m.load p).answer with
      | ok => rfl
      | error e => rfl
  | reset => simp only [perform, reset_withDialect]
  | step => simp only [perform, step_withDialect (h rfl)]
  | tick => rfl
  | setKey key pressed =>
      have hkeypad : (m.withDialect d).keypad = m.keypad := rfl
      simp only [perform, setKey, hkeypad]
      cases m.keypad.set key pressed with
      | ok keypad => rfl
      | error e => rfl

/-- Two machines that differ in their dialects alone do the same, as long as no instruction hangs on
a point that these decide differently. -/
theorem dialects_agree (m : Machine) (d : Dialect) (ops : List Operation)
    (h : m.AtSteps (Agrees d) ops) :
    (m.withDialect d).transcript ops = m.transcript ops ∧
      (m.withDialect d).performAll ops = (m.performAll ops).withDialect d :=
  performAll_follow (fun _ _ _ => withDialect_follows) h

def shifting : Array UInt8 :=
  -- Shifts a register, the other one holding the same.
  #[0x60, 0x05, 0x61, 0x05, 0x80, 0x16]

def shiftingAt (pc : UInt16) (registers : Registers) : Machine :=
  { fresh {} (.ofSeed 0) (some shifting) with pc, registers }

theorem shiftingAt_instructionAt (pc : UInt16) (registers : Registers) :
    let m := shiftingAt pc registers
    m.instructionAt 0x200 = some (.setByte 0 5) ∧ m.instructionAt 0x202 = some (.setByte 1 5) ∧
      m.instructionAt 0x204 = some (.combine .shiftRight 0 1) := by
  have h (k : Nat) (hk : k < 0xDFF) := instructionAt_fresh {} (.ofSeed 0) shifting hk
  exact ⟨(h 0 (by decide)).trans (by decide), (h 2 (by decide)).trans (by decide),
    (h 4 (by decide)).trans (by decide)⟩

theorem dialects_agree_shifting :
    let m := shiftingAt 0x200 .zero
    let ops : List Operation := [.step, .step, .step, .tick]
    (m.withDialect .chip48).performAll ops = (m.performAll ops).withDialect .chip48 ∧
      ∀ p, m.config.dialect.decides p ≠ Dialect.chip48.decides p := by
  intro m ops
  let second := shiftingAt 0x202 (Registers.zero.write 0 5)
  let third := shiftingAt 0x204 ((Registers.zero.write 0 5).write 1 5)
  have hfirst : m.instructionAt 0x200 = some (.setByte 0 5) := (shiftingAt_instructionAt _ _).1
  have hsecond : second.instructionAt 0x202 = some (.setByte 1 5) :=
    (shiftingAt_instructionAt _ _).2.1
  have hthird : third.instructionAt 0x204 = some (.combine .shiftRight 0 1) :=
    (shiftingAt_instructionAt _ _).2.2
  have hnext : m.step.next = second := step_next_of_effect (m := m) rfl rfl hfirst rfl
  have hlast : second.step.next = third := step_next_of_effect (m := second) rfl rfl hsecond rfl
  have hsteps : m.AtSteps (Agrees .chip48) ops := by
    refine atSteps_cons.2 ⟨fun _ => ?_, ?_⟩
    · exact agrees_of_hangsOn ((attempts_eq (m := m) rfl rfl).trans hfirst) rfl _
    rw [perform_step_next, hnext]
    refine atSteps_cons.2 ⟨fun _ => ?_, ?_⟩
    · exact agrees_of_hangsOn ((attempts_eq (m := second) rfl rfl).trans hsecond) rfl _
    rw [perform_step_next, hlast]
    refine atSteps_cons.2 ⟨fun _ => ?_, ?_⟩
    · exact agrees_of_hangsOn ((attempts_eq (m := third) rfl rfl).trans hthird) rfl _
    · exact atSteps_cons.2 ⟨by rintro ⟨⟩, atSteps_nil _ _⟩
  refine ⟨(dialects_agree m .chip48 ops hsteps).2, ?_⟩
  intro p
  cases p with
  | shift | logic | transfer | jump | index => rintro ⟨⟩

end Machine

end Chip8
