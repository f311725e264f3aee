import Chip8.Proofs.Bounds
import Chip8.Proofs.Restart

namespace Chip8

namespace Core

variable {d : Dialect} {s : Core} {f : Fault} {t : Transition (Except Fault Progress) Core}

/-- A halted core shows what it has halted for, at the place that the fault has left. -/
def Diagnosed (d : Dialect) (s : Core) : Prop :=
  ∀ f, s.state = .halted f → FaultAt d s (s.pc - f.moved) f

theorem Steps.halted_cases (ht : Steps d s t) (hf : t.next.state = .halted f) :
    (s.state = .running ∧ t.answer = .error f) ∨ (s.state = .halted f ∧ t.next = s) := by
  cases ht with
  | unfetched hs | undecoded w hs | faulted i g hs =>
      cases hf
      exact .inl ⟨hs, rfl⟩
  | executed i u hs hi hu =>
      rw [effect_state hu] at hf
      cases i with
      | awaitKey x => cases hf
      | _ => cases hs.symm.trans hf
  | waiting x hs => cases hs.symm.trans hf
  | keyed x key hs hx hk => cases hf
  | stopped g hs => exact .inr ⟨hf, rfl⟩

theorem step_diagnosed (hb : s.Bounded) (hs : s.Diagnosed d) : (s.step d).next.Diagnosed d := by
  intro f hf
  have hstep := steps_step (d := d) hb.register_lt
  obtain ⟨hrunning, herror⟩ | ⟨hhalted, hnext⟩ := hstep.halted_cases hf
  · have hfault := (hstep.answer_eq_error_iff hrunning).1 herror
    rw [hstep.next_of_error hrunning herror, UInt16.add_sub_cancel]
    exact hfault.elsewhere _ _ s.timers s.keypad
  · rw [hnext]
    exact hs f hhalted

end Core

open Chip8.Core Machine

theorem invariant_diagnosed (d : Dialect) :
    Invariant d fun s => s.Bounded ∧ s.Diagnosed d where
  fresh memory random := by
    refine ⟨bounded_fresh memory random, ?_⟩
    rintro f ⟨⟩
  step s hs := ⟨step_bounded hs.1, step_diagnosed hs.1 hs.2⟩
  devices s timers keypad hs := by
    refine ⟨(invariant_bounded d).devices s timers keypad hs.1, ?_⟩
    intro f hf
    exact (hs.2 f hf).elsewhere s.pc s.state timers keypad

/-- Whatever a host has done, a halted machine still shows the fault that it has halted for. A
running one fails in its next step just for what is wrong at its program counter. -/
theorem performAll_diagnosed :
    (∀ (config : Config) (host : Random.Source) (ops : List Operation) (f : Fault),
      let m := (powerOn config host).performAll ops
      m.state = .halted f →
        m.pc.toNat ≤ 0x1002 ∧ FaultAt m.config.dialect m.toCore (m.pc - f.moved) f) ∧
    ∀ (m : Machine) (f : Fault), m.isLoaded → m.state = .running →
      (m.step.answer = .error f ↔ FaultAt m.config.dialect m.toCore m.pc f) ∧
      (m.step.next.state = .halted f ↔ FaultAt m.config.dialect m.toCore m.pc f) := by
  constructor
  · intro config host ops f m hf
    obtain ⟨hb, hm⟩ := (invariant_diagnosed config.dialect).performAll host ops
    have hconfig : m.config = config := performAll_config _ ops
    rw [hconfig]
    exact ⟨hb.pc_le, hm f hf⟩
  · intro m f hm hs
    have hstep := running_step m.config.dialect hs
    have herror := hstep.answer_eq_error_iff (f := f) hs
    rw [step_of_isLoaded hm]
    refine ⟨herror, ?_⟩
    rw [← herror]
    constructor
    · intro hf
      obtain ⟨-, h⟩ | ⟨h, -⟩ := hstep.halted_cases hf
      · exact h
      · cases hs.symm.trans h
    · intro h
      rw [hstep.next_of_error hs h]

def Machine.returning : Machine := fresh {} (.ofSeed 0) (some #[0x00, 0xEE])

theorem returning_faultAt (d : Dialect) : FaultAt d returning.toCore 0x200 .stackUnderflow := by
  have hw : returning.memory.word? 0x200 = some (.ofBytes 0x00 0xEE) := by
    simp [Memory.word?, returning, fresh, image, Memory.getElem_overwrite]
  have hi : returning.instructionAt 0x200 = some .ret := by
    rw [instructionAt, hw]
    decide
  exact .refused .ret _ hi (.underflow rfl)

theorem performAll_diagnosed_returning :
    let m := (powerOn {} (.ofSeed 0)).performAll [.load #[0x00, 0xEE], .step]
    m.state = .halted .stackUnderflow ∧
      FaultAt m.config.dialect m.toCore (m.pc - 2) .stackUnderflow := by
  intro m
  have hm : m = returning.step.next := by
    show ((powerOn {} (.ofSeed 0)).load #[0x00, 0xEE]).next.step.next = _
    rw [load_eq]
    rfl
  have hhalted : m.state = .halted .stackUnderflow := by
    rw [hm, (performAll_diagnosed.2 returning .stackUnderflow rfl rfl).2]
    exact returning_faultAt _
  exact ⟨hhalted, (performAll_diagnosed.1 {} (.ofSeed 0) _ .stackUnderflow hhalted).2⟩

end Chip8
