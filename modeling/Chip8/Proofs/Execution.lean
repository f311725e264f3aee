import Chip8.Proofs.Bounds
import Chip8.Proofs.Restart

namespace Chip8

theorem Memory.word?_overwrite (m : Memory) (p : Array UInt8) {offset k : Nat}
    (h : offset + k + 1 < 0x1000) : (m.overwrite p offset).word? (offset + k) =
      some (.ofBytes (p.getD k 0) (p.getD (k + 1) 0)) := by
  have hk : ¬ offset + k < offset := by omega
  have hk' : ¬ offset + k + 1 < offset := by omega
  rw [word?, dif_pos h, getElem_overwrite, getElem_overwrite, if_neg hk, if_neg hk',
    Nat.add_sub_cancel_left, Nat.add_assoc, Nat.add_sub_cancel_left]

namespace Core

variable {d : Dialect} {s t : Core} {i : Instruction}

theorem step_of_effect (hs : s.state = .running) (hi : s.instructionAt s.pc.toNat = some i)
    (ht : { s with pc := s.pc + 2 }.effect d i = .ok t) :
    s.step d = ⟨.ok i.progress, t, .executing s.pc i :: i.notes⟩ :=
  (Steps.executed i t hs hi ht).step_eq

theorem perform_of_run_eq_ok (h : (Action.execute d i).run s = .ok () t) :
    s.perform d i = ⟨.ok i.progress, t, i.notes⟩ := by
  simp only [perform, attemptInstruction, Attempt.ofAction, h]
  rfl

theorem perform_of_run_eq_error {f : Fault}
    (h : (Action.execute d i).run s = .error (.fault f) t) :
    s.perform d i = ⟨.error f, t, []⟩ := by
  simp only [perform, attemptInstruction, Attempt.ofAction, h]
  rfl

theorem perform_of_effect (hi : i.InRange) (hpc : s.pc.toNat + 2 < 0x10000)
    (ht : s.effect d i = .ok t) : s.perform d i = ⟨.ok i.progress, t, i.notes⟩ := by
  apply perform_of_run_eq_ok
  rw [Action.run_execute hi hpc, ht]
  rfl

end Core

namespace Machine

variable {m : Machine} {i : Instruction} {t : Core} {op : Operation}

theorem step_of_effect (hm : m.isLoaded) (hs : m.state = .running)
    (hi : m.instructionAt m.pc.toNat = some i)
    (ht : { m.toCore with pc := m.pc + 2 }.effect m.config.dialect i = .ok t) :
    m.step = ⟨.ok i.progress, { m with toCore := t }, .executing m.pc i :: i.notes⟩ := by
  rw [step_of_isLoaded hm, Core.step_of_effect hs hi ht]

theorem step_next_of_effect (hm : m.isLoaded) (hs : m.state = .running)
    (hi : m.instructionAt m.pc.toNat = some i)
    (ht : { m.toCore with pc := m.pc + 2 }.effect m.config.dialect i = .ok t) :
    m.step.next = { m with toCore := t } := by
  rw [step_of_effect hm hs hi ht]

theorem step_eq_error_iff {f : Fault} (hm : m.isLoaded) (hs : m.state = .running)
    (hi : m.instructionAt m.pc.toNat = some i) : m.step.answer = .error f ↔
      { m.toCore with pc := m.pc + 2 }.effect m.config.dialect i = .error f := by
  rw [step_fails_iff hm hs, Core.effect_moved_eq_error_iff hi, Core.faultAt_iff_refuses hi]

theorem instructionAt_fresh (config : Config) (host : Random.Source) (p : Array UInt8) {k : Nat}
    (h : k < 0xDFF) : (fresh config host (some p)).instructionAt (0x200 + k) =
      Instruction.decode (.ofBytes (p.getD k 0) (p.getD (k + 1) 0)) := by
  have hk : 0x200 + k + 1 < 0x1000 := by omega
  exact congrArg (Option.bind · Instruction.decode) (Memory.word?_overwrite Memory.initial p hk)

theorem exists_effect_of_step {p : Progress} (hm : m.isLoaded) (hs : m.state = .running)
    (hp : m.step.answer = .ok p) : ∃ i t, m.instructionAt m.pc.toNat = some i ∧
      { m.toCore with pc := m.pc + 2 }.effect m.config.dialect i = .ok t ∧
      m.step.next = { m with toCore := t } := by
  have hstep := Core.running_step m.config.dialect hs
  rw [step_of_isLoaded hm] at hp ⊢
  generalize m.toCore.step m.config.dialect = r at hstep hp
  cases hstep with
  | executed i t hs hi ht => exact ⟨i, t, hi, ht, rfl⟩
  | unfetched | undecoded | faulted => cases hp
  | waiting x hx | keyed x key hx | stopped f hx => cases hs.symm.trans hx

/-- The instruction that the next step sets about, be it refused or not. -/
def attempts (m : Machine) : Option Instruction :=
  if m.isLoaded ∧ m.state = .running then m.instructionAt m.pc.toNat else none

theorem attempts_eq (hm : m.isLoaded) (hs : m.state = .running) :
    m.attempts = m.instructionAt m.pc.toNat :=
  if_pos ⟨hm, hs⟩

/-- The instruction that the next step carries out, with its address. A step that fails or looks
for a key carries out none. -/
def executes (m : Machine) : Option (UInt16 × Instruction) :=
  match m.step.answer, m.state with
  | .ok _, .running => (m.instructionAt m.pc.toNat).map (m.pc, ·)
  | _, _ => none

theorem executes_of_effect (hm : m.isLoaded) (hs : m.state = .running)
    (hi : m.instructionAt m.pc.toNat = some i)
    (ht : { m.toCore with pc := m.pc + 2 }.effect m.config.dialect i = .ok t) :
    m.executes = some (m.pc, i) := by
  simp only [executes, step_of_effect hm hs hi ht, hs, hi, Option.map_some]

theorem executes_eq_some_iff {a : UInt16} : m.executes = some (a, i) ↔
    m.isLoaded ∧ m.state = .running ∧ m.pc = a ∧ m.instructionAt m.pc.toNat = some i ∧
      ∀ f, ¬ Core.Refuses m.config.dialect m.toCore i f := by
  constructor
  · intro h
    by_cases hm : m.isLoaded
    · rw [executes] at h
      split at h
      next hanswer hs =>
        obtain ⟨j, hj, hpair⟩ := Option.map_eq_some_iff.1 h
        cases hpair
        refine ⟨hm, hs, rfl, hj, fun f hf => ?_⟩
        have hfault := (step_eq_error_iff hm hs hj).2 ((Core.effect_moved_eq_error_iff hj).2 hf)
        cases hanswer.symm.trans hfault
      next => cases h
    · simp only [executes, step_of_not_isLoaded hm, reduceCtorEq] at h
  · rintro ⟨hm, hs, rfl, hi, h⟩
    cases ht : { m.toCore with pc := m.pc + 2 }.effect m.config.dialect i with
    | ok t => exact executes_of_effect hm hs hi ht
    | error f => exact absurd ((Core.effect_moved_eq_error_iff hi).1 ht) (h f)

/-- A step carries out an instruction, or it reaches no further than the registers, the program
counter and the state of the run. -/
theorem step_cases (hb : m.Bounded) :
    (∃ i t, m.executes = some (m.pc, i) ∧
      { m.toCore with pc := m.pc + 2 }.effect m.config.dialect i = .ok t ∧
        m.step.next = { m with toCore := t }) ∨
    m.executes = none ∧ ∃ registers pc state, m.step.next = { m with registers, pc, state } := by
  by_cases hm : m.isLoaded
  · have hstep := Core.steps_step (d := m.config.dialect) hb.register_lt
    have hm' := step_of_isLoaded hm
    generalize m.toCore.step m.config.dialect = r at hstep hm'
    simp only [executes, hm']
    cases hstep with
    | unfetched hs | undecoded w hs => exact .inr ⟨by simp only, _, _, _, rfl⟩
    | executed i t hs hi ht => exact .inl ⟨i, t, by simp only [hs, hi, Option.map_some], ht, rfl⟩
    | faulted i f hs hi hf => exact .inr ⟨by simp only, _, _, _, rfl⟩
    | waiting x hs | keyed x key hs => exact .inr ⟨by simp only [hs], _, _, _, rfl⟩
    | stopped f hs => exact .inr ⟨by simp only, _, _, _, rfl⟩
  · have hm' := step_of_not_isLoaded hm
    exact .inr ⟨by simp only [executes, hm'], _, _, _, by rw [hm']⟩

def executedBy (m : Machine) : Operation → List (UInt16 × Instruction)
  | .step => m.executes.toList
  | _ => []

theorem executedBy_event (hstep : op ≠ .step) : m.executedBy op = [] := by
  cases op with
  | step => exact absurd rfl hstep
  | load | reset | tick | setKey => rfl

/-- What comes of an operation that does not start over: an instruction is carried out, or nothing
happens to the stack, the random bytes, memory and the screen. -/
theorem perform_cases (hb : m.Bounded) (hop : ¬ op.restarts) :
    (∃ i t, m.executedBy op = [(m.pc, i)] ∧
      { m.toCore with pc := m.pc + 2 }.effect m.config.dialect i = .ok t ∧
        (m.perform op).next = { m with toCore := t }) ∨
    m.executedBy op = [] ∧ ∃ registers pc state timers keypad,
      (m.perform op).next = { m with registers, pc, state, timers, keypad } := by
  by_cases hstep : op = .step
  · subst hstep
    rw [perform_step_next, executedBy]
    rcases step_cases hb with ⟨i, t, hi, ht, hnext⟩ | ⟨hnone, registers, pc, state, hnext⟩
    · exact .inl ⟨i, t, by rw [hi, Option.toList_some], ht, hnext⟩
    · exact .inr ⟨by rw [hnone, Option.toList_none], _, _, _, _, _, hnext⟩
  · obtain ⟨timers, keypad, hnext⟩ := perform_event_next (m := m) hop hstep
    exact .inr ⟨executedBy_event hstep, _, _, _, _, _, hnext⟩

/-- What a machine has executed since it last started over, `done` being what it had executed
before the operations. -/
def journal (m : Machine) (done : List (UInt16 × Instruction)) :
    List Operation → List (UInt16 × Instruction)
  | [] => done
  | op :: ops =>
      (m.perform op).next.journal (if op.restarts then [] else done ++ m.executedBy op) ops

theorem journal_step {n : Machine} {e : UInt16 × Instruction} (he : m.executes = some e)
    (hnext : m.step.next = n) (done : List (UInt16 × Instruction)) (ops : List Operation) :
    m.journal done (.step :: ops) = n.journal (done ++ [e]) ops := by
  rw [journal, executedBy, he, perform_step_next, hnext]
  rfl

theorem journal_load (config : Config) (host : Random.Source) {p : Array UInt8}
    (h : p.size ≤ 0xE00) (ops : List Operation) :
    (powerOn config host).journal [] (.load p :: ops) =
      (fresh config host (some p)).journal [] ops := by
  have hload : ((powerOn config host).perform (.load p)).next = fresh config host (some p) :=
    performAll_load config host h
  rw [journal, hload]
  rfl

theorem perform_bounded (hb : m.Bounded) (op : Operation) : (m.perform op).next.Bounded :=
  (invariant_bounded m.config.dialect).perform rfl hb op

theorem performAll_of_bounded (hb : m.Bounded) (ops : List Operation) :
    (m.performAll ops).Bounded :=
  performAll_keeps (P := fun n => n.Bounded) hb (fun _ op hn => perform_bounded hn op) ops

end Machine

end Chip8
