import Chip8.Proofs.Faults
import Chip8.Proofs.Runs

namespace Chip8

namespace Memory

variable {m t : Memory} {a len : Nat} {bytes values : List UInt8}

theorem le_of_readSlice (h : m.readSlice a len = .ok bytes) : a + len ≤ 0x1000 := by
  apply Nat.le_of_not_lt
  intro hlt
  have herror : m.readSlice a len = .error (.outOfBounds (max a 0x1000)) :=
    readSlice_eq_error_iff.2 ⟨hlt, rfl⟩
  cases h.symm.trans herror

theorem le_of_writeSlice (h : m.writeSlice a values = .ok t) :
    0x200 ≤ a ∧ a + values.length ≤ 0x1000 := by
  by_cases hlow : a < 0x200
  · have herror : m.writeSlice a values = .error (.protectedWrite a) :=
      writeSlice_eq_error_iff.2 (.inl ⟨hlow, rfl⟩)
    cases h.symm.trans herror
  · refine ⟨Nat.le_of_not_lt hlow, Nat.le_of_not_lt ?_⟩
    intro hlt
    have herror : m.writeSlice a values = .error (.outOfBounds (max a 0x1000)) :=
      writeSlice_eq_error_iff.2 (.inr ⟨Nat.le_of_not_lt hlow, hlt, rfl⟩)
    cases h.symm.trans herror

end Memory

namespace Core

variable {d : Dialect} {s t : Core} {i : Instruction}

/-- What keeps the accesses of a core inside its stores. The program counter may come to lie behind
memory, by the fetch of the last word and a skip on top of it. -/
structure Bounded (s : Core) : Prop where
  pc_le : s.pc.toNat ≤ 0x1002
  frame_le : ∀ frame ∈ s.stack.frames, frame.toNat ≤ 0x1000
  register_le : ∀ x, s.state = .awaitingKey x → x.toNat ≤ 15

theorem Bounded.of_sameControl (hs : s.Bounded) (h : SameControl s t) : t.Bounded where
  pc_le := h.pc_eq ▸ hs.pc_le
  frame_le := h.stack_eq ▸ hs.frame_le
  register_le := h.state_eq ▸ hs.register_le

/-- Behind a fetched instruction the program counter is still in memory or right at its end. -/
theorem effect_bounded (hs : s.Bounded) (hpc : s.pc.toNat ≤ 0x1000) (hi : i.InRange)
    (ht : s.effect d i = .ok t) : t.Bounded := by
  have ⟨hle, hframes, hx⟩ := hs
  cases i with
  | sys | clearScreen | setByte | addByte | combine | setIndex | random | readDelay | setDelay
  | setSound | pointGlyph =>
      cases ht
      exact ⟨hle, hframes, hx⟩
  | addIndex x =>
      cases ht
      exact hs.of_sameControl (addIndex_sameControl s d x)
  | awaitKey x =>
      cases ht
      refine ⟨hle, hframes, ?_⟩
      rintro _ ⟨⟩
      exact Nat.le_of_lt_succ hi
  | jump a =>
      cases ht
      refine ⟨?_, hframes, hx⟩
      have : a.toNat < 0x1000 := hi
      show a.toNat ≤ 0x1002
      omega
  | call a =>
      obtain ⟨stack, hstack, rfl⟩ := map_eq_ok_iff.1 ht
      refine ⟨?_, ?_, hx⟩
      · have : a.toNat < 0x1000 := hi
        show a.toNat ≤ 0x1002
        omega
      · intro frame hframe
        simp only [CallStack.frames_push hstack, List.mem_append, List.mem_singleton] at hframe
        obtain hframe | rfl := hframe
        · exact hframes frame hframe
        · exact hpc
  | ret =>
      obtain ⟨⟨target, stack⟩, hstack, rfl⟩ := map_eq_ok_iff.1 ht
      have hpop := CallStack.frames_pop hstack
      refine ⟨?_, ?_, hx⟩
      · have := hframes target (by simp [hpop])
        show target.toNat ≤ 0x1002
        omega
      · intro frame hframe
        exact hframes frame (by rw [hpop]; exact List.mem_append_left _ hframe)
  | skip c =>
      cases ht
      cases c.holdsOn s with
      | false => exact ⟨hle, hframes, hx⟩
      | true =>
          refine ⟨?_, hframes, hx⟩
          simp only [skipIf, if_true, UInt16.toNat_add, UInt16.reduceToNat]
          omega
  | jumpOffset a =>
      simp only [effect, jumpOffset] at ht
      split at ht
      · cases ht
        refine ⟨?_, hframes, hx⟩
        simp only [UInt16.toNat_ofNat']
        omega
      · cases ht
  | draw x y height =>
      obtain ⟨sprite, -, rfl⟩ := map_eq_ok_iff.1 ht
      exact ⟨hle, hframes, hx⟩
  | storeDecimal x =>
      obtain ⟨memory, -, rfl⟩ := map_eq_ok_iff.1 ht
      exact ⟨hle, hframes, hx⟩
  | store x =>
      obtain ⟨memory, -, rfl⟩ := map_eq_ok_iff.1 ht
      have h : Bounded { s with memory } := ⟨hle, hframes, hx⟩
      exact h.of_sameControl (moveIndex_sameControl _ d x)
  | load x =>
      obtain ⟨values, -, rfl⟩ := map_eq_ok_iff.1 ht
      have h : Bounded { s with registers := s.registers.fill 0 values } := ⟨hle, hframes, hx⟩
      exact h.of_sameControl (moveIndex_sameControl _ d x)

theorem Bounded.register_lt (hs : s.Bounded) (x : UInt8) (h : s.state = .awaitingKey x) :
    x.toNat < 16 :=
  Nat.lt_succ_of_le (hs.register_le x h)

theorem attempt_answer_ne_overrun (hs : s.Bounded) (o : Overrun) :
    (s.attempt d).answer ≠ .error (.overrun o) := by
  obtain ⟨⟨answer, next, log⟩, -, ht⟩ := attempt_cases (d := d) hs.register_lt
  rw [ht]
  cases answer with
  | ok p => rintro ⟨⟩
  | error f => rintro ⟨⟩

theorem step_bounded (hs : s.Bounded) : (s.step d).next.Bounded := by
  have hstep := steps_step (d := d) hs.register_lt
  generalize s.step d = t at hstep
  obtain ⟨hle, hframes, hregister⟩ := hs
  cases hstep with
  | unfetched | undecoded => exact ⟨hle, hframes, by rintro _ ⟨⟩⟩
  | executed i t hs hi ht =>
      have hlt := lt_of_instructionAt hi
      have hadd : (s.pc + 2).toNat = s.pc.toNat + 2 := by
        simp only [UInt16.toNat_add, UInt16.reduceToNat]
        omega
      refine effect_bounded (s := { s with pc := s.pc + 2 }) ⟨?_, hframes, hregister⟩ ?_
        (instructionAt_inRange hi) ht
      · simp only [hadd]
        omega
      · simp only [hadd]
        omega
  | faulted i f hs hi ht =>
      have hlt := lt_of_instructionAt hi
      refine ⟨?_, hframes, by rintro _ ⟨⟩⟩
      simp only [UInt16.toNat_add, UInt16.reduceToNat]
      omega
  | waiting | stopped => exact ⟨hle, hframes, hregister⟩
  | keyed => exact ⟨hle, hframes, by rintro _ ⟨⟩⟩

theorem bounded_fresh (memory : Memory) (random : Random.Source) :
    Bounded { memory, random } := by
  refine ⟨?_, ?_, ?_⟩
  · show (0x200 : UInt16).toNat ≤ 0x1002
    decide
  · intro frame hframe
    cases hframe
  · rintro _ ⟨⟩

end Core

open Chip8.Core Machine

theorem invariant_bounded (d : Dialect) : Invariant d Bounded where
  fresh := bounded_fresh
  step _ := step_bounded
  devices _ _ _ hs := ⟨hs.pc_le, hs.frame_le, hs.register_le⟩

/-- Whatever a host does and whatever the program is, the core stays in its bounds. The next step
meets no overrun there, and the slices that are taken lie in memory. Frames, pixels and keys are
picked by numbers that cannot exceed theirs. -/
theorem performAll_bounded (config : Config) (host : Random.Source) (ops : List Operation) :
    let m := (powerOn config host).performAll ops
    m.toCore.Bounded ∧ m.stack.depth ≤ 16 ∧
      (∀ o, (m.toCore.attempt m.config.dialect).answer ≠ .error (.overrun o)) ∧
      (∀ a len bytes, m.memory.readSlice a len = .ok bytes → a + len ≤ 0x1000) ∧
      ∀ a values memory, m.memory.writeSlice a values = .ok memory →
        0x200 ≤ a ∧ a + values.length ≤ 0x1000 := by
  intro m
  have hm : m.toCore.Bounded := (invariant_bounded config.dialect).performAll host ops
  exact ⟨hm, m.stack.depth_le, attempt_answer_ne_overrun hm, fun _ _ _ => Memory.le_of_readSlice,
    fun _ _ _ => Memory.le_of_writeSlice⟩

end Chip8
