import Chip8.Proofs.Feasibility

namespace Chip8

namespace Condition

variable {s t : Core} {c : Condition}

def Met (s : Core) : Condition → Prop
  | .holds x n => s.registers.read x = n
  | .lacks x n => s.registers.read x ≠ n
  | .equal x y => s.registers.read x = s.registers.read y
  | .differ x y => s.registers.read x ≠ s.registers.read y
  | .keyDown x => s.registers.read x % 16 ∈ s.keypad.held
  | .keyUp x => s.registers.read x % 16 ∉ s.keypad.held

def opposite : Condition → Condition
  | .holds x n => .lacks x n
  | .lacks x n => .holds x n
  | .equal x y => .differ x y
  | .differ x y => .equal x y
  | .keyDown x => .keyUp x
  | .keyUp x => .keyDown x

theorem met_opposite : c.opposite.Met s ↔ ¬ c.Met s := by
  cases c with
  | holds | equal | keyDown => exact Iff.rfl
  | lacks | differ | keyUp => exact not_not.symm

theorem met_congr (hregisters : t.registers = s.registers) (hkeypad : t.keypad = s.keypad) :
    c.Met t ↔ c.Met s := by
  cases c with
  | holds | lacks | equal | differ | keyDown | keyUp => simp only [Met, hregisters, hkeypad]

theorem mod_mem_held {k : Keypad} {b : UInt8} : b % 16 ∈ k.held ↔ k.isPressed b := by
  have hb : (b % 16).toNat = b.toNat % 16 := UInt8.toNat_mod b 16
  have hpressed : k.isPressed (b % 16) = k.isPressed b := by
    simp only [Keypad.isPressed, pick, lowDigit, hb, Nat.mod_mod]
  rw [Keypad.mem_held, hpressed, hb]
  exact and_iff_right (Nat.mod_lt _ (by decide))

theorem holdsOn_iff : c.holdsOn s ↔ c.Met s := by
  cases c with
  | holds | equal => exact beq_iff_eq
  | lacks | differ => exact bne_iff_ne
  | keyDown x => exact mod_mem_held.symm
  | keyUp x => rw [holdsOn, Met, mod_mem_held, Bool.not_eq_true', Bool.not_eq_true]

end Condition

namespace Core

variable {d : Dialect} {s t : Core} {i : Instruction}

/-- Where the program goes on after the instruction at the program counter. -/
def LeadsTo (d : Dialect) (s : Core) (target : UInt16) : Instruction → Prop
  | .jump a | .call a => target = a
  | .ret => s.stack.frames.getLast? = some target
  | .jumpOffset a => target.toNat = s.jumpTarget d a ∧ target.toNat ≤ 0xFFF
  | .skip c => (c.Met s → target.toNat = s.pc.toNat + 4) ∧
      (¬ c.Met s → target.toNat = s.pc.toNat + 2)
  | _ => target.toNat = s.pc.toNat + 2

theorem toNat_pc_add (n : UInt16) (h : s.pc.toNat < 0xFFF) (hn : n.toNat ≤ 4) :
    (s.pc + n).toNat = s.pc.toNat + n.toNat := by
  rw [UInt16.toNat_add]
  omega

/-- An instruction leads on from where it was fetched; when it is carried out the program counter
is already behind it. -/
theorem effect_leadsTo (hpc : s.pc.toNat < 0xFFF)
    (ht : { s with pc := s.pc + 2 }.effect d i = .ok t) : s.LeadsTo d t.pc i := by
  have hnext : (s.pc + 2).toNat = s.pc.toNat + 2 := toNat_pc_add 2 hpc (by decide)
  cases i with
  | sys | clearScreen | setByte | addByte | combine | setIndex | random | readDelay | awaitKey
  | setDelay | setSound | pointGlyph =>
      cases ht
      exact hnext
  | jump a =>
      cases ht
      exact Eq.refl a
  | call a =>
      obtain ⟨stack, -, rfl⟩ := map_eq_ok_iff.1 ht
      exact Eq.refl a
  | ret =>
      obtain ⟨⟨target, stack⟩, hpop, rfl⟩ := map_eq_ok_iff.1 ht
      have hlast : s.stack.frames.getLast? = some target := by
        rw [CallStack.frames_pop hpop, List.getLast?_concat]
      exact hlast
  | skip c =>
      cases ht
      have hskip : s.pc.toNat + 4 = (s.pc + 2 + 2).toNat := by
        rw [UInt16.add_assoc]
        exact (toNat_pc_add 4 hpc (by decide)).symm
      have hmet : c.holdsOn { s with pc := s.pc + 2 } ↔ c.Met s :=
        Condition.holdsOn_iff.trans (Condition.met_congr rfl rfl)
      constructor
      · intro h
        rw [skipIf, if_pos (hmet.2 h), hskip]
      · intro h
        rw [skipIf, if_neg (mt hmet.1 h), hnext]
  | jumpOffset a =>
      rw [effect, jumpOffset] at ht
      split at ht
      next h =>
        cases ht
        have htarget : (UInt16.ofNat (s.jumpTarget d a)).toNat = s.jumpTarget d a :=
          UInt16.toNat_ofNat_of_lt' (Nat.lt_of_lt_of_le h (by decide))
        exact ⟨htarget, Nat.le_of_lt_succ (htarget ▸ h)⟩
      next => cases ht
  | draw | storeDecimal =>
      obtain ⟨_, -, rfl⟩ := map_eq_ok_iff.1 ht
      exact hnext
  | addIndex x =>
      cases ht
      obtain ⟨index, registers, h⟩ := addIndex_eq { s with pc := s.pc + 2 } d x
      rw [h]
      exact hnext
  | store x =>
      obtain ⟨memory, -, rfl⟩ := map_eq_ok_iff.1 ht
      obtain ⟨index, h⟩ := moveIndex_eq { s with pc := s.pc + 2, memory } d x
      rw [h]
      exact hnext
  | load x =>
      obtain ⟨values, -, rfl⟩ := map_eq_ok_iff.1 ht
      obtain ⟨index, h⟩ := moveIndex_eq
        { s with pc := s.pc + 2, registers := s.registers.fill 0 values } d x
      rw [h]
      exact hnext

theorem allows_moved (s : Core) (pc : UInt16) : { s with pc }.Allows d i ↔ s.Allows d i := by
  cases i with
  | _ => exact Iff.rfl

end Core

namespace Machine

variable {m n : Machine} {i : Instruction} {ops : List Operation}

theorem isOk_step (hm : m.isLoaded) (hs : m.state = .running)
    (hi : m.instructionAt m.pc.toNat = some i) :
    m.step.answer.isOk ↔ m.Allows m.config.dialect i := by
  have heffect := Core.isOk_effect (d := m.config.dialect) (s := { m.toCore with pc := m.pc + 2 })
    (Core.instructionAt_inRange hi)
  rw [← Core.allows_moved m.toCore (m.pc + 2), ← heffect]
  cases ht : { m.toCore with pc := m.pc + 2 }.effect m.config.dialect i with
  | ok t => rw [step_of_effect hm hs hi ht]; rfl
  | error f => rw [(step_eq_error_iff hm hs hi).2 ht]; rfl

theorem step_of_fetch (hm : m.isLoaded) (hs : m.state = .running) (hpc : 0xFFF ≤ m.pc.toNat) :
    m.step.answer = .error (.fetchOutOfBounds m.pc) ∧
      m.step.next = { m with state := .halted (.fetchOutOfBounds m.pc) } := by
  have hstep := (Core.Steps.unfetched (d := m.config.dialect) hs
    (Memory.word?_eq_none_iff.2 hpc)).step_eq
  rw [step_of_isLoaded hm, hstep]
  exact ⟨rfl, rfl⟩

theorem step_pc_of_not_running (hs : m.state ≠ .running) : m.step.next.pc = m.pc := by
  by_cases hm : m.isLoaded
  · rw [step_of_isLoaded hm]
    cases hstate : m.state with
    | running => exact absurd hstate hs
    | halted f =>
        rw [(Core.Steps.stopped f hstate).step_eq]
    | awaitingKey x =>
        rw [Core.step_of_awaiting hstate]
        cases m.keypad.lowest with
        | none => rfl
        | some key =>
            simp only
            split
            · rfl
            · rfl
  · rw [step_of_not_isLoaded hm]

theorem performAll_of_not_running (hops : ∀ op ∈ ops, ¬ op.restarts)
    (h : m.AtSteps (fun k => k.state ≠ .running) ops) :
    (m.performAll ops).pc = m.pc ∧ (m.performAll ops).program = m.program := by
  induction ops generalizing m with
  | nil => exact ⟨rfl, rfl⟩
  | cons op ops ih =>
      obtain ⟨hop, hlater⟩ := atSteps_cons.1 h
      obtain ⟨hfirst, hrest⟩ := List.forall_mem_cons.1 hops
      obtain ⟨hpc, hprogram⟩ := ih hrest hlater
      rw [performAll_cons, hpc, hprogram]
      refine ⟨?_, perform_program hfirst⟩
      by_cases hstep : op = .step
      · subst hstep
        exact step_pc_of_not_running (hop rfl)
      · obtain ⟨timers, keypad, hnext⟩ := perform_event_next (m := m) hfirst hstep
        rw [hnext]

theorem step_next_leadsTo (hm : m.isLoaded) (hs : m.state = .running)
    (hi : m.instructionAt m.pc.toNat = some i) (hok : m.step.answer.isOk) :
    m.LeadsTo m.config.dialect m.step.next.pc i ∧ m.step.next.isLoaded := by
  obtain ⟨p, hp⟩ := isOk_iff.1 hok
  obtain ⟨j, t, hj, ht, hnext⟩ := exists_effect_of_step hm hs hp
  cases hj.symm.trans hi
  rw [hnext]
  exact ⟨Core.effect_leadsTo (Core.lt_of_instructionAt hi) ht, hm⟩

theorem skips_iff {c : Condition} (hm : m.isLoaded) (hs : m.state = .running)
    (hi : m.instructionAt m.pc.toNat = some (.skip c)) :
    m.step.next.pc.toNat = m.pc.toNat + 4 ↔ c.Met m.toCore := by
  obtain ⟨⟨hmet, hunmet⟩, -⟩ := step_next_leadsTo hm hs hi ((isOk_step hm hs hi).2 trivial)
  by_cases hc : c.Met m.toCore
  · exact iff_of_true (hmet hc) hc
  · refine iff_of_false ?_ hc
    rw [hunmet hc]
    omega

/-- Where a step leads, and that leading out of memory is no fault of it: the fault is that of the
next step that fetches, whatever a host does in between. Of a skip and its opposite just one skips. -/
theorem step_leadsTo (hm : m.isLoaded) (hs : m.state = .running)
    (hi : m.instructionAt m.pc.toNat = some i) :
    let n := m.step.next
    (m.step.answer.isOk ↔ m.Allows m.config.dialect i) ∧
    (m.step.answer.isOk → m.LeadsTo m.config.dialect n.pc i ∧
      ∀ ops : List Operation, (∀ op ∈ ops, ¬ op.restarts) →
        n.AtSteps (fun k => k.state ≠ .running) ops →
          let k := n.performAll ops
          k.pc = n.pc ∧ (k.state = .running → 0xFFF ≤ n.pc.toNat →
            k.step.answer = .error (.fetchOutOfBounds n.pc) ∧ k.step.next.pc = n.pc)) ∧
    ∀ (c : Condition) (m' : Machine), i = .skip c → m'.isLoaded → m'.state = .running →
      m'.instructionAt m'.pc.toNat = some (.skip c.opposite) → m'.registers = m.registers →
      m'.keypad = m.keypad →
        (m'.step.next.pc.toNat = m'.pc.toNat + 4 ↔ n.pc.toNat ≠ m.pc.toNat + 4) := by
  intro n
  refine ⟨isOk_step hm hs hi, ?_, ?_⟩
  · intro hok
    obtain ⟨hleads, hn⟩ := step_next_leadsTo hm hs hi hok
    refine ⟨hleads, ?_⟩
    intro ops hops hwaits k
    obtain ⟨hpc, hprogram⟩ : k.pc = n.pc ∧ k.program = n.program :=
      performAll_of_not_running hops hwaits
    have hk : k.isLoaded := by
      rw [isLoaded, hprogram]
      exact hn
    refine ⟨hpc, fun hstate hout => ?_⟩
    obtain ⟨hanswer, hlast⟩ := step_of_fetch hk hstate (hpc ▸ hout)
    rw [hanswer, hlast, hpc]
    exact ⟨rfl, rfl⟩
  · rintro c m' rfl hm' hs' hi' hregisters hkeypad
    rw [skips_iff hm' hs' hi', Condition.met_congr hregisters hkeypad, Condition.met_opposite,
      ← skips_iff hm hs hi]

def holding (high low : UInt8) : Machine := fresh {} (.ofSeed 0) (some #[high, low])

theorem holding_instructionAt (high low : UInt8) :
    (holding high low).instructionAt 0x200 = Instruction.decode (.ofBytes high low) :=
  instructionAt_fresh _ _ _ (k := 0) (by decide)

theorem step_leadsTo_leaving :
    let m := holding 0x1F 0xFF
    let k := m.step.next.performAll [.tick, .setKey 3 true]
    m.step.answer.isOk ∧ k.step.answer = .error (.fetchOutOfBounds 0xFFF) ∧
      k.step.next.pc = 0xFFF ∧
      ((holding 0x41 0x00).step.next.pc.toNat = 0x204 ↔
        (holding 0x31 0x00).step.next.pc.toNat ≠ 0x204) := by
  intro m k
  have hi : m.instructionAt 0x200 = some (.jump 0xFFF) :=
    (holding_instructionAt _ _).trans (by decide)
  have hskip : (holding 0x31 0x00).instructionAt 0x200 = some (.skip (.holds 1 0)) :=
    (holding_instructionAt _ _).trans (by decide)
  have hskip' : (holding 0x41 0x00).instructionAt 0x200 = some (.skip (.lacks 1 0)) :=
    (holding_instructionAt _ _).trans (by decide)
  have hnext : m.step.next = { m with pc := 0xFFF } := step_next_of_effect (m := m) rfl rfl hi rfl
  obtain ⟨hok, hleads, -⟩ := step_leadsTo (m := m) rfl rfl hi
  obtain ⟨hjump, hlater⟩ := hleads (hok.2 trivial)
  have hwaits : m.step.next.AtSteps (fun n => n.state ≠ .running) [.tick, .setKey 3 true] :=
    atSteps_cons.2 ⟨nofun, atSteps_cons.2 ⟨nofun, atSteps_nil _ _⟩⟩
  obtain ⟨-, hfault⟩ := hlater _ (by decide) hwaits
  rw [show m.step.next.pc = 0xFFF from hjump] at hfault
  obtain ⟨hanswer, hpc⟩ := hfault (by rw [hnext]; rfl) (by decide)
  exact ⟨hok.2 trivial, hanswer, hpc, (step_leadsTo (m := holding 0x31 0x00) rfl rfl hskip).2.2
    (.holds 1 0) (holding 0x41 0x00) rfl rfl rfl hskip' rfl rfl⟩

end Machine

end Chip8
