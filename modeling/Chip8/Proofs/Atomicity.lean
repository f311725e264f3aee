import Chip8.Proofs.Faults
import Chip8.Proofs.Runs

namespace Chip8

namespace Action

variable {α β : Type} {a : Action α} {k : α → Action β} {d : Dialect} {x : UInt8}

theorem run_bind_eq_error {s t : Core} {e : Stop} (h : (a >>= k).run s = .error e t) :
    a.run s = .error e t ∨ ∃ v u, a.run s = .ok v u ∧ (k v).run u = .error e t := by
  rw [EStateM.run_bind] at h
  cases hr : a.run s with
  | ok v u =>
      rw [hr] at h
      exact .inr ⟨v, u, rfl, h⟩
  | error e' u =>
      rw [hr] at h
      cases h
      exact .inl rfl

theorem run_bind_eq_ok {s t : Core} {w : β} (h : (a >>= k).run s = .ok w t) :
    ∃ v u, a.run s = .ok v u ∧ (k v).run u = .ok w t := by
  rw [EStateM.run_bind] at h
  cases hr : a.run s with
  | ok v u =>
      rw [hr] at h
      exact ⟨v, u, rfl, h⟩
  | error e u =>
      rw [hr] at h
      cases h

/-- A fault finds the core as it was before. -/
def Atomic (a : Action α) : Prop := ∀ s f t, a.run s = .error (.fault f) t → t = s

/-- Nothing is changed, be there a fault or not. -/
structure Reads (a : Action α) : Prop where
  ok : ∀ s v t, a.run s = .ok v t → t = s
  atomic : Atomic a

def Faultless (a : Action α) : Prop := ∀ s f t, a.run s ≠ .error (.fault f) t

theorem Faultless.atomic (ha : Faultless a) : Atomic a := by
  intro s f t h
  exact absurd h (ha s f t)

theorem Faultless.bind (ha : Faultless a) (hk : ∀ v, Faultless (k v)) : Faultless (a >>= k) := by
  intro s f t h
  rcases run_bind_eq_error h with h | ⟨v, u, -, h⟩
  · exact ha s f t h
  · exact hk v u f t h

/-- What has only read so far may still fail. -/
theorem Reads.bind_atomic (ha : Reads a) (hk : ∀ v, Atomic (k v)) : Atomic (a >>= k) := by
  intro s f t h
  rcases run_bind_eq_error h with h | ⟨v, u, hu, h⟩
  · exact ha.atomic s f t h
  · rw [hk v u f t h, ha.ok s v u hu]

theorem Reads.bind (ha : Reads a) (hk : ∀ v, Reads (k v)) : Reads (a >>= k) := by
  constructor
  · intro s w t h
    rcases run_bind_eq_ok h with ⟨v, u, hu, h⟩
    rw [(hk v).ok u w t h, ha.ok s v u hu]
  · exact ha.bind_atomic fun v => (hk v).atomic

/-- What may already have written must not fail any more. -/
theorem Atomic.bind_faultless (ha : Atomic a) (hk : ∀ v, Faultless (k v)) : Atomic (a >>= k) := by
  intro s f t h
  rcases run_bind_eq_error h with h | ⟨v, u, -, h⟩
  · exact ha s f t h
  · exact absurd h (hk v u f t)

theorem faultless_pure (v : α) : Faultless (pure v) := by
  intro s f t h
  cases h

theorem faultless_get : Faultless get := by
  intro s f t h
  cases h

theorem faultless_set (s : Core) : Faultless (set s) := by
  intro _ f t h
  cases h

theorem faultless_modify (g : Core → Core) : Faultless (modify g) := by
  intro s f t h
  cases h

theorem faultless_modifyGet (g : Core → α × Core) : Faultless (modifyGet g) := by
  intro s f t h
  cases h

theorem faultless_checkRegister (x : UInt8) : Faultless (checkRegister x) := by
  rw [checkRegister]
  split
  · exact faultless_pure ()
  · intro s f t h
    cases h

theorem faultless_register (x : UInt8) : Faultless (register x) :=
  (faultless_checkRegister x).bind fun _ => faultless_get.bind fun _ => faultless_pure _

theorem faultless_setRegister (x value : UInt8) : Faultless (setRegister x value) :=
  (faultless_checkRegister x).bind fun _ => faultless_modify _

theorem faultless_setRegistersTo (x : UInt8) (values : List UInt8) :
    Faultless (setRegistersTo x values) :=
  (faultless_checkRegister x).bind fun _ => faultless_modify _

theorem faultless_advance : Faultless advance := by
  refine faultless_get.bind fun s => ?_
  split
  · exact faultless_modify _
  · intro s f t h
    cases h

theorem faultless_skipIf (condition : Bool) : Faultless (skipIf condition) := by
  cases condition with
  | false => exact faultless_pure ()
  | true => exact faultless_advance

theorem faultless_test (c : Condition) : Faultless c.test := by
  cases c with
  | holds | lacks => exact (faultless_register _).bind fun _ => faultless_pure _
  | equal | differ =>
      exact (faultless_register _).bind fun _ => (faultless_register _).bind fun _ =>
        faultless_pure _
  | keyDown | keyUp =>
      exact faultless_get.bind fun _ => (faultless_register _).bind fun _ => faultless_pure _

theorem faultless_apply (op : Arithmetic) (x y : UInt8) : Faultless (op.apply d x y) := by
  refine (faultless_register x).bind fun a => (faultless_register y).bind fun b =>
    (faultless_setRegister _ _).bind fun _ => ?_
  cases op.flag d a b with
  | none => exact faultless_pure ()
  | some set => exact faultless_modify _

theorem faultless_moveIndex : Faultless (moveIndex d x) := by
  rw [moveIndex]
  split
  · exact faultless_get.bind fun _ => faultless_modify _
  · exact faultless_pure ()

theorem faultless_addIndex : Faultless (addIndex d x) := by
  refine faultless_get.bind fun s => (faultless_register x).bind fun byte =>
    (faultless_modify _).bind fun _ => ?_
  split
  · exact faultless_modify _
  · exact faultless_pure ()

theorem reads_pure (v : α) : Reads (pure v) := by
  constructor
  · intro s v t h
    cases h
    rfl
  · exact (faultless_pure v).atomic

theorem reads_get : Reads get := by
  constructor
  · intro s v t h
    cases h
    rfl
  · exact faultless_get.atomic

theorem reads_checkRegister (x : UInt8) : Reads (checkRegister x) := by
  refine ⟨?_, (faultless_checkRegister x).atomic⟩
  rw [checkRegister]
  split
  · exact (reads_pure ()).ok
  · intro s v t h
    cases h

theorem reads_ofExcept (e : Except Fault α) : Reads (ofExcept e) := by
  cases e with
  | ok v => exact reads_pure v
  | error f =>
      constructor
      · intro s v t h
        cases h
      · intro s f t h
        cases h
        rfl

theorem reads_register (x : UInt8) : Reads (register x) :=
  (reads_checkRegister x).bind fun _ => reads_get.bind fun _ => reads_pure _

theorem reads_registersTo (x : UInt8) : Reads (registersTo x) :=
  (reads_checkRegister x).bind fun _ => reads_get.bind fun _ => reads_pure _

theorem reads_readPointed (count : Nat) : Reads (readPointed count) :=
  reads_get.bind fun _ => reads_ofExcept _

theorem atomic_push (target : UInt16) : Atomic (push target) :=
  reads_get.bind_atomic fun _ => (reads_ofExcept _).atomic.bind_faultless fun _ => faultless_set _

theorem atomic_pop : Atomic pop :=
  reads_get.bind_atomic fun _ => (reads_ofExcept _).atomic.bind_faultless fun _ =>
    (faultless_set _).bind fun _ => faultless_pure _

theorem atomic_writePointed (values : List UInt8) : Atomic (writePointed values) :=
  reads_get.bind_atomic fun _ => (reads_ofExcept _).atomic.bind_faultless fun _ => faultless_set _

theorem atomic_jumpOffset (a : UInt16) : Atomic (jumpOffset d a) := by
  refine (reads_register _).bind_atomic fun offset => ?_
  dsimp only
  split
  · exact (faultless_modify _).atomic
  · intro s f t h
    cases h
    rfl

theorem atomic_draw (x y height : UInt8) : Atomic (draw x y height) := by
  refine (reads_register x).bind_atomic fun column => (reads_register y).bind_atomic fun row =>
    (reads_readPointed height.toNat).atomic.bind_faultless fun sprite => ?_
  exact (faultless_modifyGet _).bind fun _ => faultless_modify _

/-- Each instruction makes all its checks before its first write. -/
theorem atomic_execute (d : Dialect) (i : Instruction) : Atomic (execute d i) := by
  cases i with
  | sys => exact (faultless_pure ()).atomic
  | clearScreen | jump | setIndex | awaitKey => exact (faultless_modify _).atomic
  | ret => exact atomic_pop.bind_faultless fun _ => faultless_modify _
  | call a => exact (atomic_push a).bind_faultless fun _ => faultless_modify _
  | skip c => exact ((faultless_test c).bind faultless_skipIf).atomic
  | setByte x n => exact (faultless_setRegister x n).atomic
  | addByte x n =>
      exact ((faultless_register x).bind fun _ => faultless_setRegister _ _).atomic
  | combine op x y => exact (faultless_apply op x y).atomic
  | jumpOffset a => exact atomic_jumpOffset a
  | random x mask =>
      exact ((faultless_modifyGet _).bind fun _ => faultless_setRegister _ _).atomic
  | draw x y height => exact atomic_draw x y height
  | readDelay x => exact (faultless_get.bind fun _ => faultless_setRegister _ _).atomic
  | setDelay x | setSound x | pointGlyph x =>
      exact ((faultless_register x).bind fun _ => faultless_modify _).atomic
  | addIndex x => exact faultless_addIndex.atomic
  | storeDecimal x => exact (reads_register x).bind_atomic fun _ => atomic_writePointed _
  | store x =>
      exact (reads_registersTo x).bind_atomic fun _ =>
        (atomic_writePointed _).bind_faultless fun _ => faultless_moveIndex
  | load x =>
      exact (reads_readPointed _).atomic.bind_faultless fun _ =>
        (faultless_setRegistersTo x _).bind fun _ => faultless_moveIndex

end Action

theorem Core.perform_next_of_error {d : Dialect} {s : Core} {i : Instruction} {f : Fault}
    (h : (s.perform d i).answer = .error f) : (s.perform d i).next = s := by
  simp only [perform, attemptInstruction, Attempt.ofAction] at h ⊢
  cases hr : (Action.execute d i).run s with
  | ok v t =>
      rw [hr] at h
      cases h
  | error e t =>
      rw [hr] at h
      cases e with
      | fault g => exact Action.atomic_execute d i s g t hr
      | overrun o => cases h

open Machine

/-- A fault undoes nothing, for there is nothing to undo: an instruction that fails has changed
nothing. What a failing step changes is only the state of the run, and the program counter if there
was an instruction to move behind. -/
theorem faults_atomic :
    (∀ (d : Dialect) (s : Core) (i : Instruction) (f : Fault),
      (s.perform d i).answer = .error f → (s.perform d i).next = s) ∧
    ∀ (m : Machine) (f : Fault), m.isLoaded → m.state = .running → m.step.answer = .error f →
      m.step.next = { m with pc := m.pc + f.moved, state := .halted f } ∧
      f.moved = if (m.instructionAt m.pc.toNat).isSome then 2 else 0 := by
  refine ⟨fun d s i f => Core.perform_next_of_error, ?_⟩
  intro m f hm hs hf
  have hstep := Core.running_step m.config.dialect hs
  rw [step_of_isLoaded hm] at hf ⊢
  constructor
  · rw [hstep.next_of_error hs hf]
  · exact ((hstep.answer_eq_error_iff hs).1 hf).moved_eq

def Machine.deepInCalls : Machine where
  memory := ⟨.replicate 0x1000 0x22⟩
  stack := ⟨.replicate 16 0, 16, by decide⟩
  random := .ofSeed 0
  config := {}
  program := some #[]

theorem deepInCalls_faultAt (d : Dialect) :
    Core.FaultAt d deepInCalls.toCore 0x200 (.stackOverflow 0x222) := by
  have hw : deepInCalls.memory.word? 0x200 = some (.ofBytes 0x22 0x22) := by
    simp [Memory.word?, deepInCalls]
  have hi : deepInCalls.instructionAt 0x200 = some (.call 0x222) := by
    rw [Core.instructionAt, hw]
    decide
  exact .refused (.call 0x222) _ hi (.overflow 0x222 rfl)

theorem faults_atomic_deepInCalls :
    (deepInCalls.toCore.perform .cosmacVip (.call 0x222)).next = deepInCalls.toCore ∧
    deepInCalls.step.next =
      { deepInCalls with pc := 0x202, state := .halted (.stackOverflow 0x222) } := by
  have hrun := Core.running_step (s := deepInCalls.toCore) deepInCalls.config.dialect rfl
  have hstep : deepInCalls.step.answer = .error (.stackOverflow 0x222) := by
    rw [step_of_isLoaded rfl, hrun.answer_eq_error_iff rfl]
    exact deepInCalls_faultAt _
  constructor
  · exact faults_atomic.1 .cosmacVip deepInCalls.toCore (.call 0x222) (.stackOverflow 0x222) rfl
  · exact (faults_atomic.2 deepInCalls (.stackOverflow 0x222) rfl rfl hstep).1

end Chip8
