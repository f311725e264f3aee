import Chip8.Proofs.Execution

namespace Chip8

namespace Random

/-- The low bytes of the words of the keystream, its first blocks laid end to end. -/
def stream (key : Key) (blocks : Nat) : List UInt8 :=
  (List.range blocks).flatMap fun block => (keystream key block).toList.map UInt32.toUInt8

theorem byteAt_block (key : Key) (block : Nat) {k : Nat} (hk : k < 16) :
    byteAt key (16 * block + k) = (keystream key block)[k].toUInt8 := by
  have hdiv : (16 * block + k) / 16 = block := by omega
  have hmod : (16 * block + k) % 16 = k := by omega
  simp only [byteAt, hdiv, hmod]

theorem map_byteAt_block (key : Key) (block : Nat) :
    (List.range 16).map (fun k => byteAt key (16 * block + k)) =
      (keystream key block).toList.map UInt32.toUInt8 := by
  apply List.ext_getElem
  · simp only [List.length_map, List.length_range, Vector.length_toList]
  · intro k hk hk'
    simp only [List.length_map, List.length_range] at hk
    simp only [List.getElem_map, List.getElem_range, Vector.getElem_toList,
      byteAt_block key block hk]

theorem stream_eq (key : Key) (blocks : Nat) :
    stream key blocks = (List.range (16 * blocks)).map (byteAt key) := by
  induction blocks with
  | zero => rfl
  | succ blocks ih =>
      rw [stream, List.range_succ, List.flatMap_append, List.flatMap_singleton, ← map_byteAt_block,
        Nat.mul_succ, List.range_add, List.map_append, List.map_map, ← ih]
      rfl

end Random

def Instruction.isRandom : Instruction → Bool
  | .random .. => true
  | _ => false

def randomCount (executed : List (UInt16 × Instruction)) : Nat :=
  executed.countP fun e => e.2.isRandom

theorem randomCount_append (done more : List (UInt16 × Instruction)) :
    randomCount (done ++ more) = randomCount done + randomCount more :=
  List.countP_append

namespace Core

variable {d : Dialect} {s t : Core} {i : Instruction}

theorem randomAfter_eq (s : Core) (a : UInt16) (i : Instruction) : s.randomAfter i =
    { s.random with drawn := s.random.drawn + randomCount [(a, i)] } := by
  cases i with
  | _ => rfl

def withRandom (r : Random.Source) (s : Core) : Core := { s with random := r }

theorem moveIndex_withRandom (s : Core) (x : UInt8) (r : Random.Source) :
    (s.withRandom r).moveIndex d x = (s.moveIndex d x).withRandom r := by
  simp only [moveIndex]
  split
  · rfl
  · rfl

theorem effect_withRandom (hi : ¬ i.isRandom) (ht : s.effect d i = .ok t) (r : Random.Source) :
    (s.withRandom r).effect d i = .ok (t.withRandom r) := by
  cases i with
  | random => exact absurd rfl hi
  | sys | clearScreen | jump | setByte | addByte | combine | setIndex | readDelay | awaitKey
  | setDelay | setSound | pointGlyph =>
      cases ht
      rfl
  | skip c =>
      cases ht
      have hc : c.holdsOn (s.withRandom r) = c.holdsOn s := by cases c with | _ => rfl
      simp only [effect, skipIf, hc]
      split
      · rfl
      · rfl
  | addIndex x =>
      cases ht
      simp only [effect, addIndex]
      split
      · rfl
      · rfl
  | jumpOffset a =>
      by_cases htarget : s.jumpTarget d a < 0x1000
      · cases (if_pos htarget).symm.trans ht
        exact if_pos htarget
      · cases (if_neg htarget).symm.trans ht
  | ret | call | draw | storeDecimal =>
      obtain ⟨a, ha, rfl⟩ := map_eq_ok_iff.1 ht
      exact map_eq_ok_iff.2 ⟨a, ha, rfl⟩
  | store x =>
      obtain ⟨memory, hmemory, rfl⟩ := map_eq_ok_iff.1 ht
      exact map_eq_ok_iff.2 ⟨memory, hmemory, moveIndex_withRandom { s with memory } x r⟩
  | load x =>
      obtain ⟨values, hvalues, rfl⟩ := map_eq_ok_iff.1 ht
      refine map_eq_ok_iff.2 ⟨values, hvalues, ?_⟩
      exact moveIndex_withRandom { s with registers := s.registers.fill 0 values } x r

/-- Only the instruction that asks for a random byte can tell one source from another. -/
theorem step_withRandom (h : s.state = .running → ∀ i, s.instructionAt s.pc.toNat = some i →
      ¬ i.isRandom) (r : Random.Source) : (s.withRandom r).step d =
    ⟨(s.step d).answer, (s.step d).next.withRandom r, (s.step d).log⟩ := by
  cases hs : s.state with
  | running =>
      have hstep := running_step d hs
      generalize s.step d = u at hstep
      cases hstep with
      | unfetched _ hw => exact (Steps.unfetched (s := s.withRandom r) hs hw).step_eq
      | undecoded w _ hw hi => exact (Steps.undecoded (s := s.withRandom r) w hs hw hi).step_eq
      | executed i t _ hi ht =>
          have ht := effect_withRandom (h hs i hi) ht r
          exact (Steps.executed (s := s.withRandom r) i _ hs hi ht).step_eq
      | faulted i f _ hi hf =>
          -- What refuses an instruction is not in the source.
          have hrefuses := ((effect_moved_eq_error_iff hi).1 hf).transfer (s.withRandom r)
          have hf := (effect_moved_eq_error_iff (s := s.withRandom r) hi).2 hrefuses
          exact (Steps.faulted (s := s.withRandom r) i f hs hi hf).step_eq
      | waiting _ hx | keyed _ _ hx | stopped _ hx => cases hs.symm.trans hx
  | awaitingKey x =>
      have hkeypad : (s.withRandom r).keypad = s.keypad := rfl
      rw [step_of_awaiting hs, step_of_awaiting (s := s.withRandom r) hs, hkeypad]
      cases s.keypad.lowest with
      | none => rfl
      | some key =>
          by_cases hx : x.toNat < 16
          · simp only [hx, if_true]
            rfl
          · simp only [hx, if_false]
  | halted f =>
      rw [(Steps.stopped f hs).step_eq]
      exact (Steps.stopped (s := s.withRandom r) f hs).step_eq

end Core

namespace Machine

open Chip8.Random Operation

variable {m : Machine} {op : Operation} {ops : List Operation}
  {done : List (UInt16 × Instruction)} {seed : UInt64}

theorem perform_random (hb : m.Bounded) (hop : ¬ op.restarts) : (m.perform op).next.random =
    { m.random with drawn := m.random.drawn + randomCount (m.executedBy op) } := by
  rcases perform_cases hb hop with ⟨i, t, hi, ht, hnext⟩ | ⟨hnone, _, _, _, _, _, hnext⟩
  · rw [hnext, hi]
    exact (Core.effect_random ht).trans (Core.randomAfter_eq _ m.pc i)
  · rw [hnext, hnone]
    rfl

theorem perform_restart_random (hseed : m.config.seed = some seed) (hop : op.restarts) :
    (m.perform op).next.random = .ofSeed seed := by
  obtain ⟨memory, program, hnext⟩ := perform_restart_next (m := m) hop
  rw [hnext]
  simp only [Config.source, hseed]

theorem performAll_random (hb : m.Bounded) (hseed : m.config.seed = some seed)
    (h : m.random = ⟨keyOfSeed seed, randomCount done⟩) :
    (m.performAll ops).random = ⟨keyOfSeed seed, randomCount (m.journal done ops)⟩ := by
  induction ops generalizing m done with
  | nil => exact h
  | cons op ops ih =>
      refine ih (perform_bounded hb op) (by rw [perform_next_config, hseed]) ?_
      by_cases hop : op.restarts
      · rw [perform_restart_random hseed hop, if_pos hop]
        rfl
      · rw [perform_random hb hop, h, if_neg hop, randomCount_append]

/-- With a seed, the random bytes of a program are the stream of that seed in its order, from the
first byte on whenever the program starts over. Each instruction that asks for one takes one, be its
mask zero, and nothing else does. -/
theorem random_accounted (dialect : Dialect) (seed : UInt64) (host : Source)
    (ops : List Operation) :
    let start := powerOn { dialect, seed := some seed } host
    let m := start.performAll ops
    let n := randomCount (start.journal [] ops)
    let key := keyOfSeed seed
    m.random = ⟨key, n⟩ ∧
    (∀ a x mask, m.executes = some (a, .random x mask) →
      let byte := byteAt key n &&& mask
      m.step.next.registers = m.registers.write x byte ∧ m.step.next.registers.read x = byte ∧
        m.step.next.random = ⟨key, n + 1⟩) ∧
    (∀ op : Operation, ¬ op.restarts →
      (op = .step → ∀ a x mask, m.executes ≠ some (a, .random x mask)) →
        (m.perform op).next.random = m.random) ∧
    (∀ op : Operation, op.restarts → (m.perform op).next.random = ⟨key, 0⟩) ∧
    (∀ later : List Operation, (∀ op ∈ later, op.program? = none) →
      let again := m.reset.next.performAll later
      again.random = ⟨key, randomCount (m.reset.next.journal [] later)⟩ ∧
        again.reset.next.performAll later = again) ∧
    ∀ blocks, stream key blocks = (List.range (16 * blocks)).map (byteAt key) := by
  intro start m n key
  have hb : m.Bounded := (invariant_bounded dialect).performAll host ops
  have hseed : m.config.seed = some seed := congrArg Config.seed (performAll_config _ ops)
  have hrandom : m.random = ⟨key, n⟩ := performAll_random (Core.bounded_fresh _ _) rfl rfl
  refine ⟨hrandom, ?_, ?_, ?_, ?_, stream_eq key⟩
  · intro a x mask hexecutes byte
    rcases step_cases hb with ⟨i, t, hi, ht, hnext⟩ | ⟨hnone, -⟩
    · cases hexecutes.symm.trans hi
      cases ht
      have hbyte : m.random.next &&& mask = byte := congrArg (·.next &&& mask) hrandom
      have hregisters : m.step.next.registers = m.registers.write x byte := by
        rw [hnext, ← hbyte]
        rfl
      refine ⟨hregisters, ?_, ?_⟩
      · rw [hregisters, Registers.read_write, if_pos rfl]
      · rw [hnext]
        exact congrArg Source.advance hrandom
    · cases hexecutes.symm.trans hnone
  · intro op hop hother
    have hnone : randomCount (m.executedBy op) = 0 := by
      by_cases hstep : op = .step
      · subst hstep
        rw [executedBy]
        cases he : m.executes with
        | none => rfl
        | some e =>
            obtain ⟨a, i⟩ := e
            cases i with
            | random x mask => exact absurd he (hother rfl a x mask)
            | _ => rfl
      · rw [executedBy_event hstep]
        rfl
    rw [perform_random hb hop, hnone]
    rfl
  · intro op hop
    exact perform_restart_random hseed hop
  · intro later hlater again
    have hagain : again = start.performAll (ops ++ .reset :: later) :=
      (performAll_append start ops (.reset :: later)).symm
    have hkept : kept (ops ++ .reset :: later) = kept ops := by
      rw [kept, lastLoad_append_others ops (List.forall_mem_cons.2 ⟨rfl, hlater⟩)]
      rfl
    constructor
    · refine performAll_random (perform_bounded hb .reset) ?_
        (perform_restart_random hseed (show Operation.reset.restarts from rfl))
      exact (congrArg Config.seed (m.perform_next_config .reset)).trans hseed
    · have hreset : again.reset.next = m.reset.next := by
        rw [hagain, performAll_reset rfl host, performAll_reset rfl host, hkept]
      rw [hreset]

def withRandom (r : Source) (m : Machine) : Machine := { m with toCore := m.toCore.withRandom r }

/-- The next step asks for no random byte. -/
def Determined (m : Machine) : Prop := ∀ a x mask, m.executes ≠ some (a, .random x mask)

theorem step_withRandom (h : m.Determined) (r : Source) :
    (m.withRandom r).step = ⟨m.step.answer, m.step.next.withRandom r, m.step.log⟩ := by
  by_cases hm : m.isLoaded
  · have hcore := Core.step_withRandom (d := m.config.dialect) (s := m.toCore) ?_ r
    · rw [step_of_isLoaded hm, step_of_isLoaded (m := m.withRandom r) hm]
      simp only [withRandom, hcore]
    · intro hs i hi hrandom
      cases i with
      | random x mask => exact h m.pc x mask (executes_of_effect hm hs hi rfl)
      | _ => cases hrandom
  · rw [step_of_not_isLoaded hm, step_of_not_isLoaded (m := m.withRandom r) hm]

theorem withRandom_follows (hop : ¬ op.restarts) (h : op = .step → m.Determined) (r : Source) :
    Follows (withRandom r) m op := by
  rw [Follows]
  cases op with
  | load | reset => exact absurd rfl hop
  | step => simp only [perform, step_withRandom (h rfl)]
  | tick => rfl
  | setKey key pressed =>
      have hkeypad : (m.withRandom r).keypad = m.keypad := rfl
      simp only [perform, setKey, hkeypad]
      cases m.keypad.set key pressed with
      | ok keypad => rfl
      | error e => rfl

def dice : Array UInt8 :=
  -- Asks for three random bytes.
  #[0xC0, 0x0F, 0xC1, 0x00, 0xC2, 0xFF]

def rollingAt (pc : UInt16) (registers : Registers) (random : Source) : Machine :=
  { fresh { seed := some 7 } (.ofSeed 0) (some dice) with pc, registers, random }

def rolling : Machine := rollingAt 0x200 .zero (.ofSeed 7)

def rolledOnce : Machine :=
  rollingAt 0x202 (rolling.registers.write 0 (rolling.random.next &&& 0x0F)) rolling.random.advance

def rolled : Machine :=
  rollingAt 0x204 (rolledOnce.registers.write 1 (rolledOnce.random.next &&& 0))
    rolledOnce.random.advance

theorem rollingAt_instructionAt (pc : UInt16) (registers : Registers) (random : Source) :
    let m := rollingAt pc registers random
    m.instructionAt 0x200 = some (.random 0 0x0F) ∧ m.instructionAt 0x202 = some (.random 1 0) ∧
      m.instructionAt 0x204 = some (.random 2 0xFF) := by
  have h (k : Nat) (hk : k < 0xDFF) := instructionAt_fresh { seed := some 7 } (.ofSeed 0) dice hk
  exact ⟨(h 0 (by decide)).trans (by decide), (h 2 (by decide)).trans (by decide),
    (h 4 (by decide)).trans (by decide)⟩

theorem rolled_run :
    (powerOn { seed := some 7 } (.ofSeed 0)).performAll [.load dice, .step, .step] = rolled ∧
    (powerOn { seed := some 7 } (.ofSeed 0)).journal [] [.load dice, .step, .step] =
      [(0x200, .random 0 0x0F), (0x202, .random 1 0)] := by
  have hfirst : rolling.instructionAt 0x200 = some (.random 0 0x0F) :=
    (rollingAt_instructionAt _ _ _).1
  have hsecond : rolledOnce.instructionAt 0x202 = some (.random 1 0) :=
    (rollingAt_instructionAt _ _ _).2.1
  have hnext : rolling.step.next = rolledOnce :=
    step_next_of_effect (m := rolling) rfl rfl hfirst rfl
  have hnext' : rolledOnce.step.next = rolled :=
    step_next_of_effect (m := rolledOnce) rfl rfl hsecond rfl
  constructor
  · refine (performAll_load_cons _ _ (by decide) [.step, .step]).trans ?_
    exact (congrArg (fun m : Machine => m.step.next) hnext).trans hnext'
  · refine (journal_load _ _ (by decide) [.step, .step]).trans ?_
    refine (journal_step (executes_of_effect (m := rolling) rfl rfl hfirst rfl) hnext [] _).trans ?_
    exact journal_step (executes_of_effect (m := rolledOnce) rfl rfl hsecond rfl) hnext' _ []

theorem random_accounted_rolled :
    let r := byteAt (keyOfSeed 7)
    (List.range 16).map r = [0x19, 0xB7, 0x90, 0x16, 0x8E, 0x73, 0xF7, 0xA7, 0x3A, 0x98, 0xDE, 0xAE,
      0x21, 0xE8, 0x07, 0xC0] ∧ r 16 = 0x7A ∧
      rolled.executes = some (0x204, .random 2 0xFF) ∧ rolled.step.next.registers.read 2 = 0x90 ∧
      rolled.step.next.random = ⟨keyOfSeed 7, 3⟩ ∧ (rolled.perform .tick).next.random.drawn = 2 ∧
      (rolled.perform .reset).next.random = ⟨keyOfSeed 7, 0⟩ ∧
      let again := rolled.reset.next.performAll [.step, .tick]
      again.reset.next.performAll [.step, .tick] = again := by
  intro r
  have hexecutes : rolled.executes = some (0x204, .random 2 0xFF) :=
    executes_of_effect (m := rolled) rfl rfl (rollingAt_instructionAt _ _ _).2.2 rfl
  have haccounted := random_accounted .cosmacVip 7 (.ofSeed 0) [.load dice, .step, .step]
  obtain ⟨hrun, hjournal⟩ := rolled_run
  dsimp only at haccounted
  rw [hrun, hjournal] at haccounted
  obtain ⟨hdrawn, hrandom, hother, hrestart, hreplay, hstream⟩ := haccounted
  obtain ⟨-, hread, hnext⟩ := hrandom 0x204 2 0xFF hexecutes
  have hbytes : (List.range 16).map r = [0x19, 0xB7, 0x90, 0x16, 0x8E, 0x73, 0xF7, 0xA7, 0x3A, 0x98,
      0xDE, 0xAE, 0x21, 0xE8, 0x07, 0xC0] := (hstream 1).symm.trans (by decide +kernel)
  have hthird : r 2 &&& 0xFF = 0x90 := by
    rw [show r 2 = 0x90 from Option.some.inj (congrArg (·[2]?) hbytes)]
    decide
  refine ⟨hbytes, by decide +kernel, hexecutes, hread.trans hthird, hnext, ?_, hrestart .reset rfl,
    ?_⟩
  · rw [hother .tick (by decide) (by rintro ⟨⟩), hdrawn]
    rfl
  · exact (hreplay [.step, .tick] (by decide)).2

end Machine

end Chip8
