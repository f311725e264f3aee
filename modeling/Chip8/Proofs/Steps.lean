import Chip8.Proofs.Effect

namespace Chip8

def Memory.word? (m : Memory) (a : Nat) : Option Opcode :=
  if h : a + 1 < 0x1000 then some (.ofBytes m.bytes[a] m.bytes[a + 1]) else none

theorem Memory.word?_eq_none_iff {m : Memory} {a : Nat} : m.word? a = none ↔ 0xFFF ≤ a := by
  simp only [word?, dite_eq_right_iff, reduceCtorEq, imp_false]
  omega

theorem Memory.lt_of_word? {m : Memory} {a : Nat} {w : Opcode} (h : m.word? a = some w) :
    a < 0xFFF := by
  have hn : m.word? a ≠ none := by simp only [h, ne_eq, reduceCtorEq, not_false_eq_true]
  rw [Ne, word?_eq_none_iff] at hn
  omega

namespace Core

variable {s : Core} {i : Instruction} {a : Nat}

def instructionAt (s : Core) (a : Nat) : Option Instruction :=
  (s.memory.word? a).bind Instruction.decode

theorem instructionAt_of_word? {w : Opcode} (h : s.memory.word? a = some w) :
    s.instructionAt a = Instruction.decode w := by
  rw [instructionAt, h, Option.bind_some]

theorem instructionAt_of_word?_eq_none (h : s.memory.word? a = none) :
    s.instructionAt a = none := by
  rw [instructionAt, h, Option.bind_none]

theorem lt_of_instructionAt (h : s.instructionAt a = some i) : a < 0xFFF := by
  obtain ⟨w, hw, -⟩ := Option.bind_eq_some_iff.1 h
  exact Memory.lt_of_word? hw

theorem instructionAt_inRange (h : s.instructionAt a = some i) : i.InRange := by
  obtain ⟨w, -, hi⟩ := Option.bind_eq_some_iff.1 h
  exact Instruction.decode_inRange hi

theorem fetch_eq (s : Core) : s.fetch = match s.memory.word? s.pc.toNat with
    | some w => .ok w
    | none => .error (.fetchOutOfBounds s.pc) := by
  by_cases h : s.pc.toNat + 1 < 0x1000
  · simp only [fetch, Memory.word?, h, dite_true]
  · simp only [fetch, Memory.word?, h, dite_false]

/-- The ways in which a step can go. -/
inductive Steps (d : Dialect) (s : Core) : Transition (Except Fault Progress) Core → Prop
  | unfetched (hs : s.state = .running) (hw : s.memory.word? s.pc.toNat = none) :
      Steps d s ⟨.error (.fetchOutOfBounds s.pc),
        { s with state := .halted (.fetchOutOfBounds s.pc) },
        [.halted s.pc (.fetchOutOfBounds s.pc)]⟩
  | undecoded (w : Opcode) (hs : s.state = .running) (hw : s.memory.word? s.pc.toNat = some w)
      (hi : Instruction.decode w = none) :
      Steps d s ⟨.error (.illegalOpcode w), { s with state := .halted (.illegalOpcode w) },
        [.halted s.pc (.illegalOpcode w)]⟩
  | executed (i : Instruction) (t : Core) (hs : s.state = .running)
      (hi : s.instructionAt s.pc.toNat = some i)
      (ht : { s with pc := s.pc + 2 }.effect d i = .ok t) :
      Steps d s ⟨.ok i.progress, t, .executing s.pc i :: i.notes⟩
  | faulted (i : Instruction) (f : Fault) (hs : s.state = .running)
      (hi : s.instructionAt s.pc.toNat = some i)
      (ht : { s with pc := s.pc + 2 }.effect d i = .error f) :
      Steps d s ⟨.error f, { s with pc := s.pc + 2, state := .halted f },
        [.executing s.pc i, .halted (s.pc + 2) f]⟩
  | waiting (x : UInt8) (hs : s.state = .awaitingKey x) (hk : s.keypad.lowest = none) :
      Steps d s ⟨.ok .awaitingKey, s, []⟩
  | keyed (x key : UInt8) (hs : s.state = .awaitingKey x) (hx : x.toNat < 16)
      (hk : s.keypad.lowest = some key) :
      Steps d s ⟨.ok .advanced, { s.write x key with state := .running }, [.keyStored key x]⟩
  | stopped (f : Fault) (hs : s.state = .halted f) : Steps d s ⟨.error f, s, []⟩

end Core

namespace Attempt

def ofTold (t : Transition (Except Fault Progress) Core) : Attempt :=
  ⟨t.answer.mapError .fault, t.next, t.log⟩

theorem told_ofTold (t : Transition (Except Fault Progress) Core) : (ofTold t).told = t := by
  obtain ⟨answer, next, log⟩ := t
  cases answer with
  | ok p => rfl
  | error f => rfl

end Attempt

namespace Core

open Chip8.Action Attempt

variable {d : Dialect} {s : Core} {i : Instruction}

theorem run_advance_execute (hi : i.InRange) (hpc : s.pc.toNat < 0xFFF) :
    EStateM.run (do advance; execute d i) s =
      outcome { s with pc := s.pc + 2 } ({ s with pc := s.pc + 2 }.effect d i) := by
  have hadd : (s.pc + 2).toNat = s.pc.toNat + 2 := by
    simp only [UInt16.toNat_add, UInt16.reduceToNat]
    omega
  rw [EStateM.run_bind, run_advance (by omega)]
  exact run_execute hi (by simp only [hadd]; omega)

/-- A step goes one of these ways if a key is waited for in a register that there is, and meets no
overrun. -/
theorem attempt_cases (hx : ∀ x, s.state = .awaitingKey x → x.toNat < 16) :
    ∃ t, Steps d s t ∧ s.attempt d = ofTold t := by
  rw [attempt]
  cases hs : s.state with
  | halted f => exact ⟨_, .stopped f hs, rfl⟩
  | awaitingKey x =>
      simp only [pollKey]
      cases hk : s.keypad.lowest with
      | none => exact ⟨_, .waiting x hs hk, rfl⟩
      | some key =>
          refine ⟨_, .keyed x key hs (hx x hs) hk, ?_⟩
          simp only [ofAction, EStateM.run_bind, run_setRegister (hx x hs)]
          rfl
  | running =>
      simp only [cycle, fetch_eq]
      cases hw : s.memory.word? s.pc.toNat with
      | none => exact ⟨_, .unfetched hs hw, rfl⟩
      | some w =>
          cases hd : Instruction.decode w with
          | none => exact ⟨_, .undecoded w hs hw hd, by simp only [hd]; rfl⟩
          | some i =>
              have hi : s.instructionAt s.pc.toNat = some i :=
                (instructionAt_of_word? hw).trans hd
              have hrun := run_advance_execute (d := d) (instructionAt_inRange hi)
                (Memory.lt_of_word? hw)
              simp only [hd, run, ofAction, hrun]
              cases ht : { s with pc := s.pc + 2 }.effect d i with
              | ok t => exact ⟨_, .executed i t hs hi ht, rfl⟩
              | error f => exact ⟨_, .faulted i f hs hi ht, rfl⟩

theorem Steps.step_eq {t : Transition (Except Fault Progress) Core} (ht : Steps d s t) :
    s.step d = t := by
  rw [step, attempt]
  cases ht with
  | unfetched hs hw =>
      simp only [hs, cycle, fetch_eq, hw]
      rfl
  | undecoded w hs hw hd =>
      simp only [hs, cycle, fetch_eq, hw, hd]
      rfl
  | executed i t hs hi ht | faulted i f hs hi ht =>
      obtain ⟨w, hw, hd⟩ := Option.bind_eq_some_iff.1 hi
      have hrun := run_advance_execute (d := d) (instructionAt_inRange hi) (lt_of_instructionAt hi)
      simp only [hs]
      simp only [cycle, fetch_eq, hw, hd, run, ofAction, hrun, ht]
      rfl
  | waiting x hs hk =>
      simp only [hs, pollKey, hk]
      rfl
  | keyed x key hs hx hk =>
      simp only [hs, pollKey, hk, ofAction, EStateM.run_bind, run_setRegister hx]
      rfl
  | stopped f hs =>
      simp only [hs]
      rfl

theorem step_of_awaiting {x : UInt8} (hs : s.state = .awaitingKey x) :
    s.step d = match s.keypad.lowest with
      | none => ⟨.ok .awaitingKey, s, []⟩
      | some key => ⟨.ok .advanced,
          if x.toNat < 16 then { s.write x key with state := .running } else s,
          [.keyStored key x]⟩ := by
  simp only [step, attempt, hs, pollKey]
  cases s.keypad.lowest with
  | none => rfl
  | some key =>
      by_cases hx : x.toNat < 16
      · simp only [ofAction, EStateM.run_bind, run_setRegister hx, hx, if_true]
        rfl
      · simp only [setRegister, checkRegister, hx, if_false]
        rfl

theorem steps_step (hx : ∀ x, s.state = .awaitingKey x → x.toNat < 16) : Steps d s (s.step d) := by
  obtain ⟨t, ht, he⟩ := attempt_cases (d := d) hx
  rw [step, he, told_ofTold]
  exact ht

end Core

end Chip8
