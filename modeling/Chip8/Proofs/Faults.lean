import Chip8.Proofs.Runs
import Chip8.Proofs.Steps

namespace Chip8

namespace Memory

variable {m : Memory} {a len : Nat} {values : List UInt8} {f : Fault}

theorem readSlice_eq_error_iff :
    m.readSlice a len = .error f ↔ 0x1000 < a + len ∧ f = .outOfBounds (max a 0x1000) := by
  by_cases h : a + len ≤ 0x1000
  · have hread : m.readSlice a len = .ok _ := dif_pos h
    simp only [hread, reduceCtorEq, Nat.not_lt_of_le h, false_and]
  · have hread : m.readSlice a len = .error _ := dif_neg h
    simp only [hread, Except.error.injEq, Nat.lt_of_not_le h, true_and, eq_comm]

theorem writeSlice_eq_error_iff : m.writeSlice a values = .error f ↔
    (a < 0x200 ∧ f = .protectedWrite a) ∨
      (0x200 ≤ a ∧ 0x1000 < a + values.length ∧ f = .outOfBounds (max a 0x1000)) := by
  by_cases h : a < 0x200
  · have hwrite : m.writeSlice a values = .error _ := if_pos h
    simp only [hwrite, Except.error.injEq, h, Nat.not_le_of_lt h, true_and, false_and, or_false,
      eq_comm]
  · have hle : 0x200 ≤ a := Nat.le_of_not_lt h
    rw [writeSlice, if_neg h]
    by_cases hlt : 0x1000 < a + values.length
    · simp only [hlt, if_true, Except.error.injEq, h, hle, true_and, false_and, false_or, eq_comm]
    · simp only [hlt, if_false, reduceCtorEq, h, false_and, and_false, or_self]

end Memory

theorem Registers.length_upTo {x : UInt8} (hx : x.toNat < 16) (v : Registers) :
    (v.upTo x).length = x.toNat + 1 := by
  simp only [upTo, countTo, lowDigit, List.length_take, Vector.length_toList]
  omega

theorem Registers.countTo_eq {x : UInt8} (hx : x.toNat < 16) : countTo x = x.toNat + 1 := by
  simp only [countTo, lowDigit]
  omega

namespace Instruction

def span : Instruction → Option Nat
  | .draw _ _ height => some height.toNat
  | .storeDecimal _ => some 3
  | .store x | .load x => some (x.toNat + 1)
  | _ => none

def Writes : Instruction → Prop
  | .storeDecimal _ | .store _ => True
  | _ => False

end Instruction

/-- How far behind its place a fault leaves the program counter, which only an instruction that was
fetched moves on. -/
def Fault.moved : Fault → UInt16
  | .outOfBounds _ | .protectedWrite _ | .stackOverflow _ | .stackUnderflow => 2
  | .fetchOutOfBounds _ | .illegalOpcode _ | .noProgram => 0

namespace Core

variable {d : Dialect} {s : Core} {i : Instruction} {f : Fault}

theorem address_lt (s : Core) : s.address < 0x1000 := by
  simp only [address, UInt16.toNat_mod, UInt16.reduceToNat]
  omega

def jumpTarget (d : Dialect) (s : Core) (a : UInt16) : Nat :=
  a.toNat + (s.registers.read (d.offsetRegister a)).toNat

/-- Why a core cannot carry out an instruction, as it can be read off the two. -/
inductive Refuses (d : Dialect) (s : Core) : Instruction → Fault → Prop
  | underflow (h : s.stack.depth = 0) : Refuses d s .ret .stackUnderflow
  | overflow (a : UInt16) (h : s.stack.depth = 16) : Refuses d s (.call a) (.stackOverflow a)
  | jumped (a : UInt16) (h : 0x1000 ≤ s.jumpTarget d a) :
      Refuses d s (.jumpOffset a) (.outOfBounds (s.jumpTarget d a))
  | shielded (i : Instruction) (hi : i.Writes) (h : s.address < 0x200) :
      Refuses d s i (.protectedWrite s.address)
  | overran (i : Instruction) (len : Nat) (hi : i.span = some len) (h : 0x1000 < s.address + len) :
      Refuses d s i (.outOfBounds 0x1000)

theorem Refuses.transfer (h : Refuses d s i f) (t : Core) :
    Refuses d { t with registers := s.registers, index := s.index, stack := s.stack } i f := by
  cases h with
  | underflow h => exact .underflow h
  | overflow a h => exact .overflow a h
  | jumped a h => exact .jumped a h
  | shielded _ hi h => exact .shielded _ hi h
  | overran _ len hi h => exact .overran _ len hi h

theorem Refuses.elsewhere (h : Refuses d s i f) (pc : UInt16) (state : RunState) (timers : Timers)
    (keypad : Keypad) : Refuses d { s with pc, state, timers, keypad } i f :=
  h.transfer { s with pc, state, timers, keypad }

theorem Refuses.moved_eq (h : Refuses d s i f) : f.moved = 2 := by
  cases h <;> rfl

theorem readPointed_eq_error_iff {len : Nat} :
    s.memory.readSlice s.address len = .error f ↔
      0x1000 < s.address + len ∧ f = .outOfBounds 0x1000 := by
  rw [Memory.readSlice_eq_error_iff, Nat.max_eq_right (Nat.le_of_lt s.address_lt)]

theorem writePointed_eq_error_iff {values : List UInt8} :
    s.memory.writeSlice s.address values = .error f ↔
      (s.address < 0x200 ∧ f = .protectedWrite s.address) ∨
        (0x200 ≤ s.address ∧ 0x1000 < s.address + values.length ∧ f = .outOfBounds 0x1000) := by
  rw [Memory.writeSlice_eq_error_iff, Nat.max_eq_right (Nat.le_of_lt s.address_lt)]

theorem jumpOffset_eq_error_iff {a : UInt16} : s.jumpOffset d a = .error f ↔
    0x1000 ≤ s.jumpTarget d a ∧ f = .outOfBounds (s.jumpTarget d a) := by
  by_cases h : s.jumpTarget d a < 0x1000
  · have hjump : s.jumpOffset d a = .ok { s with pc := UInt16.ofNat (s.jumpTarget d a) } := if_pos h
    simp only [hjump, reduceCtorEq, Nat.not_le_of_lt h, false_and]
  · have hjump : s.jumpOffset d a = .error (.outOfBounds (s.jumpTarget d a)) := if_neg h
    simp only [hjump, Except.error.injEq, Nat.le_of_not_lt h, true_and, eq_comm]

theorem refuses_of_read {len : Nat} (hi : i.span = some len) (hread : ¬ i.Writes) :
    s.memory.readSlice s.address len = .error f ↔ Refuses d s i f := by
  rw [readPointed_eq_error_iff]
  constructor
  · rintro ⟨h, rfl⟩
    exact .overran i len hi h
  · intro h
    cases h with
    | underflow | overflow | jumped => cases hi
    | shielded _ hw h => exact absurd hw hread
    | overran _ n hn h =>
        cases hi.symm.trans hn
        exact ⟨h, rfl⟩

/-- Where a write begins and how far it spans are two reasons to refuse it. No span is so long that
both apply. -/
theorem refuses_of_write {values : List UInt8} (hi : i.span = some values.length) (hw : i.Writes)
    (hshort : values.length ≤ 16) :
    s.memory.writeSlice s.address values = .error f ↔ Refuses d s i f := by
  rw [writePointed_eq_error_iff]
  constructor
  · rintro (⟨h, rfl⟩ | ⟨-, h, rfl⟩)
    · exact .shielded i hw h
    · exact .overran i _ hi h
  · intro h
    cases h with
    | underflow | overflow | jumped => cases hi
    | shielded _ hw h => exact .inl ⟨h, rfl⟩
    | overran _ n hn h =>
        cases hi.symm.trans hn
        exact .inr ⟨by omega, h, rfl⟩

theorem effect_eq_error_iff (hi : i.InRange) : s.effect d i = .error f ↔ Refuses d s i f := by
  cases i with
  | sys | clearScreen | jump | skip | setByte | addByte | combine | setIndex | random | readDelay
  | awaitKey | setDelay | setSound | addIndex | pointGlyph =>
      constructor
      · rintro ⟨⟩
      · intro h
        cases h with
        | shielded _ hw => cases hw
        | overran _ _ hn => cases hn
  | ret =>
      simp only [effect, map_eq_error_iff, CallStack.pop_eq_error_iff]
      constructor
      · rintro ⟨h, rfl⟩
        exact .underflow h
      · intro h
        cases h with
        | underflow h => exact ⟨h, rfl⟩
        | shielded _ hw => cases hw
        | overran _ _ hn => cases hn
  | call a =>
      simp only [effect, map_eq_error_iff, CallStack.push_eq_error_iff]
      constructor
      · rintro ⟨h, rfl⟩
        exact .overflow a h
      · intro h
        cases h with
        | overflow _ h => exact ⟨h, rfl⟩
        | shielded _ hw => cases hw
        | overran _ _ hn => cases hn
  | jumpOffset a =>
      rw [effect, jumpOffset_eq_error_iff]
      constructor
      · rintro ⟨h, rfl⟩
        exact .jumped a h
      · intro h
        cases h with
        | jumped _ h => exact ⟨h, rfl⟩
        | shielded _ hw => cases hw
        | overran _ _ hn => cases hn
  | draw x y height =>
      simp only [effect, draw, map_eq_error_iff]
      exact refuses_of_read rfl id
  | storeDecimal x =>
      simp only [effect, map_eq_error_iff]
      exact refuses_of_write rfl trivial (show 3 ≤ 16 by decide)
  | store x =>
      have hlen := Registers.length_upTo hi s.registers
      have hx : x.toNat < 16 := hi
      simp only [effect, map_eq_error_iff]
      exact refuses_of_write (congrArg some hlen.symm) trivial (by omega)
  | load x =>
      simp only [effect, map_eq_error_iff]
      exact refuses_of_read (congrArg some (Registers.countTo_eq hi).symm) id

inductive FaultAt (d : Dialect) (s : Core) (a : UInt16) : Fault → Prop
  | unfetched (h : 0xFFF ≤ a.toNat) : FaultAt d s a (.fetchOutOfBounds a)
  | undecoded (w : Opcode) (hw : s.memory.word? a.toNat = some w)
      (hd : Instruction.decode w = none) : FaultAt d s a (.illegalOpcode w)
  | refused (i : Instruction) (f : Fault) (hi : s.instructionAt a.toNat = some i)
      (h : Refuses d s i f) : FaultAt d s a f

theorem FaultAt.elsewhere {a : UInt16} (h : FaultAt d s a f) (pc : UInt16) (state : RunState)
    (timers : Timers) (keypad : Keypad) : FaultAt d { s with pc, state, timers, keypad } a f := by
  cases h with
  | unfetched h => exact .unfetched h
  | undecoded w hw hd => exact .undecoded w hw hd
  | refused i _ hi h => exact .refused i f hi (h.elsewhere pc state timers keypad)

theorem FaultAt.moved_eq {a : UInt16} (h : FaultAt d s a f) :
    f.moved = if (s.instructionAt a.toNat).isSome then 2 else 0 := by
  cases h with
  | unfetched h =>
      rw [instructionAt_of_word?_eq_none (Memory.word?_eq_none_iff.2 h)]
      rfl
  | undecoded w hw hd =>
      rw [instructionAt_of_word? hw, hd]
      rfl
  | refused i _ hi h =>
      rw [hi]
      exact h.moved_eq

theorem faultAt_iff_refuses {a : UInt16} (hi : s.instructionAt a.toNat = some i) :
    FaultAt d s a f ↔ Refuses d s i f := by
  constructor
  · rintro (h | ⟨w, hw, hd⟩ | ⟨j, _, hj, h⟩)
    · exact absurd (lt_of_instructionAt hi) (Nat.not_lt_of_le h)
    · rw [instructionAt_of_word? hw, hd] at hi
      cases hi
    · cases hi.symm.trans hj
      exact h
  · exact .refused i f hi

theorem effect_moved_eq_error_iff (hi : s.instructionAt s.pc.toNat = some i) :
    { s with pc := s.pc + 2 }.effect d i = .error f ↔ Refuses d s i f := by
  rw [effect_eq_error_iff (instructionAt_inRange hi)]
  constructor
  · intro h
    exact h.elsewhere s.pc s.state s.timers s.keypad
  · intro h
    exact h.elsewhere (s.pc + 2) s.state s.timers s.keypad

variable {t : Transition (Except Fault Progress) Core}

theorem Steps.answer_eq_error_iff (ht : Steps d s t) (hs : s.state = .running) :
    t.answer = .error f ↔ FaultAt d s s.pc f := by
  cases ht with
  | unfetched _ hw =>
      have hpc := Memory.word?_eq_none_iff.1 hw
      constructor
      · rintro ⟨⟩
        exact .unfetched hpc
      · rintro (_ | ⟨_, hv, _⟩ | ⟨_, _, hi, _⟩)
        · rfl
        · cases hw.symm.trans hv
        · exact absurd (lt_of_instructionAt hi) (Nat.not_lt_of_le hpc)
  | undecoded w _ hw hd =>
      constructor
      · rintro ⟨⟩
        exact .undecoded w hw hd
      · rintro (h | ⟨_, hv, _⟩ | ⟨_, _, hi, _⟩)
        · exact absurd (Memory.lt_of_word? hw) (Nat.not_lt_of_le h)
        · cases hw.symm.trans hv
          rfl
        · rw [instructionAt_of_word? hw, hd] at hi
          cases hi
  | executed i u _ hi hu =>
      rw [faultAt_iff_refuses hi, ← effect_moved_eq_error_iff hi, hu]
      constructor
      · rintro ⟨⟩
      · rintro ⟨⟩
  | faulted i g _ hi hg =>
      rw [faultAt_iff_refuses hi, ← effect_moved_eq_error_iff hi, hg]
      constructor
      · rintro ⟨⟩
        rfl
      · rintro ⟨⟩
        rfl
  | waiting x hx | keyed x _ hx | stopped f hx => cases hs.symm.trans hx

theorem Steps.next_of_error (ht : Steps d s t) (hs : s.state = .running)
    (hf : t.answer = .error f) : t.next = { s with pc := s.pc + f.moved, state := .halted f } := by
  have hmoved := ((ht.answer_eq_error_iff hs).1 hf).moved_eq
  cases ht with
  | unfetched | undecoded =>
      cases hf
      simp only [Fault.moved, UInt16.add_zero]
  | executed => cases hf
  | faulted i _ _ hi =>
      cases hf
      rw [hmoved, hi]
      rfl
  | waiting x hx | keyed x _ hx | stopped f hx => cases hs.symm.trans hx

theorem running_step (d : Dialect) (hs : s.state = .running) : Steps d s (s.step d) := by
  apply steps_step
  intro x hx
  cases hs.symm.trans hx

end Core

theorem Machine.step_fails_iff {m : Machine} {f : Fault} (hm : m.isLoaded)
    (hs : m.state = .running) :
    m.step.answer = .error f ↔ Core.FaultAt m.config.dialect m.toCore m.pc f := by
  rw [step_of_isLoaded hm]
  exact (Core.running_step m.config.dialect hs).answer_eq_error_iff hs

end Chip8
