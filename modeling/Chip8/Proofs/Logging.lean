import Chip8.Proofs.ControlFlow
import Chip8.Proofs.Fetching
import Chip8.Proofs.KeyWait

namespace Chip8

namespace Level

variable {level : Level}

def records (level : Level) (log : List Record) : List Record :=
  log.filter fun r => r.level = level

theorem records_append (level : Level) (log rest : List Record) :
    level.records (log ++ rest) = level.records log ++ level.records rest :=
  List.filter_append log rest

theorem records_of_ne {other : Level} {log : List Record} (h : ∀ r ∈ log, r.level = other)
    (hne : other ≠ level) : level.records log = [] := by
  apply List.filter_eq_nil_iff.2
  intro r hr
  rw [h r hr, decide_eq_true_iff]
  exact hne

end Level

theorem Instruction.level_notes (i : Instruction) : ∀ r ∈ i.notes, r.level = .debug := by
  cases i with
  | sys | awaitKey => exact List.forall_mem_singleton.2 rfl
  | _ => exact List.forall_mem_nil _

namespace Machine

variable {α : Type} {m : Machine} {op : Operation} {ops : List Operation} {f : Fault}

def written (m : Machine) (ops : List Operation) : List Record :=
  (m.transcript ops).flatMap Prod.snd

def along (tell : Machine → Operation → Option α) (m : Machine) : List Operation → List α
  | [] => []
  | op :: ops => (tell m op).toList ++ (m.perform op).next.along tell ops

def decodes (m : Machine) : Operation → Option (UInt16 × Instruction)
  | .step =>
      match m.isLoaded, m.state, m.fetch with
      | true, .running, .ok w => (Instruction.decode w).map (m.pc, ·)
      | _, _, _ => none
  | _ => none

def halts (m : Machine) (op : Operation) : Option (UInt16 × Fault) :=
  let n := (m.perform op).next
  match m.haltReason, n.haltReason with
  | none, some f => some (n.pc, f)
  | _, _ => none

theorem decodes_step (m : Machine) : m.decodes .step = m.attempts.map (m.pc, ·) := by
  rw [decodes, attempts, Core.instructionAt, Core.fetch_eq]
  cases m.isLoaded with
  | false => simp
  | true =>
      cases m.state with
      | awaitingKey | halted => simp
      | running =>
          cases m.memory.word? m.pc.toNat with
          | none => simp
          | some w => simp

theorem decodes_of_ne_step (h : op ≠ .step) : m.decodes op = none := by
  cases op with
  | step => exact absurd rfl h
  | load | reset | tick | setKey => rfl

theorem halts_of_state_eq (h : (m.perform op).next.state = m.state) : m.halts op = none := by
  simp only [halts, haltReason, h]
  cases m.state with
  | running | awaitingKey | halted => rfl

theorem halts_of_haltReason (h : (m.perform op).next.haltReason = none) : m.halts op = none := by
  simp only [halts, h]
  cases m.haltReason with
  | none | some => rfl

theorem perform_event_log (h : ¬ op.restarts) (hstep : op ≠ .step) : (m.perform op).log = [] := by
  cases op with
  | load | reset => exact absurd rfl h
  | step => exact absurd rfl hstep
  | tick => rfl
  | setKey key pressed =>
      simp only [perform]
      split <;> rfl

theorem perform_load_log (m : Machine) (p : Array UInt8) :
    (m.perform (.load p)).log = (m.load p).log := by
  simp only [perform]
  split <;> rfl

theorem perform_restart_log (hm : m.Reloadable) (h : op.restarts) :
    ∀ r ∈ (m.perform op).log, r.level = .info := by
  cases op with
  | load p =>
      rw [perform_load_log, load_eq]
      split
      · exact List.forall_mem_cons.2 ⟨rfl, List.forall_mem_singleton.2 rfl⟩
      · exact List.forall_mem_singleton.2 rfl
  | reset =>
      rw [show (m.perform .reset).log = m.reset.log from rfl, reset_eq hm]
      exact List.forall_mem_singleton.2 rfl
  | step | tick | setKey => cases h

theorem haltReason_of_effect {t : Core} {i : Instruction} (hs : m.state = .running)
    (ht : { m.toCore with pc := m.pc + 2 }.effect m.config.dialect i = .ok t) :
    { m with toCore := t }.haltReason = none := by
  have hstate := Core.effect_state ht
  simp only [haltReason, hstate]
  cases i with
  | awaitKey x => rfl
  | _ => simp only [Core.stateAfter, hs]

/-- A step traces what it has decoded, and says what it halts for. -/
theorem step_records (hb : m.Bounded) :
    Level.trace.records m.step.log =
      ((m.decodes .step).map fun e => .executing e.1 e.2).toList ∧
    Level.error.records m.step.log = ((m.halts .step).map fun e => .halted e.1 e.2).toList := by
  have hnext := m.perform_step_next
  rw [decodes_step]
  by_cases hm : m.isLoaded
  · have hstep := Core.steps_step (d := m.config.dialect) hb.register_lt
    have hm' := step_of_isLoaded hm
    generalize m.toCore.step m.config.dialect = r at hstep hm'
    rw [hm'] at hnext ⊢
    cases hstep with
    | unfetched hs hw =>
        have hi : m.instructionAt m.pc.toNat = none := Core.instructionAt_of_word?_eq_none hw
        rw [attempts_eq hm hs, hi, halts, hnext, haltReason, hs]
        exact ⟨rfl, rfl⟩
    | undecoded w hs hw hd =>
        have hi : m.instructionAt m.pc.toNat = none := (Core.instructionAt_of_word? hw).trans hd
        rw [attempts_eq hm hs, hi, halts, hnext, haltReason, hs]
        exact ⟨rfl, rfl⟩
    | executed i t hs hi ht =>
        have hhalts : m.halts .step = none := by
          apply halts_of_haltReason
          rw [hnext]
          exact haltReason_of_effect hs ht
        -- The notes come behind the trace and are neither traces nor errors.
        have htrace : Level.trace.records i.notes = [] :=
          Level.records_of_ne i.level_notes (by simp)
        have herror : Level.error.records i.notes = [] :=
          Level.records_of_ne i.level_notes (by simp)
        rw [attempts_eq hm hs, hi, hhalts, ← List.singleton_append, Level.records_append,
          Level.records_append, htrace, herror]
        exact ⟨rfl, rfl⟩
    | faulted i f hs hi ht =>
        rw [attempts_eq hm hs, hi, halts, hnext, haltReason, hs]
        exact ⟨rfl, rfl⟩
    | waiting x hs =>
        rw [attempts, hs, halts_of_state_eq (by rw [hnext])]
        simp [Level.records]
    | keyed x key hs =>
        rw [attempts, hs, halts_of_haltReason (by rw [hnext, haltReason])]
        simp [Level.records, Record.level]
    | stopped f hs =>
        rw [attempts, hs, halts_of_state_eq (by rw [hnext])]
        simp [Level.records]
  · rw [step_of_not_isLoaded hm] at hnext ⊢
    rw [attempts, halts_of_state_eq (by rw [hnext])]
    simp [hm, Level.records]

theorem perform_records (hb : m.Bounded) (hm : m.Reloadable) (op : Operation) :
    Level.trace.records (m.perform op).log =
      ((m.decodes op).map fun e => .executing e.1 e.2).toList ∧
    Level.error.records (m.perform op).log = ((m.halts op).map fun e => .halted e.1 e.2).toList := by
  by_cases hstep : op = .step
  · subst hstep
    exact step_records hb
  · rw [decodes_of_ne_step hstep]
    by_cases hop : op.restarts
    · have hinfo := perform_restart_log hm hop
      have hhalts : m.halts op = none := by
        apply halts_of_haltReason
        rw [haltReason, perform_state_of_restarts hop]
      rw [hhalts]
      exact ⟨Level.records_of_ne hinfo (by simp), Level.records_of_ne hinfo (by simp)⟩
    · obtain ⟨timers, keypad, hnext⟩ := perform_event_next (m := m) hop hstep
      rw [perform_event_log hop hstep, halts_of_state_eq (by rw [hnext])]
      exact ⟨rfl, rfl⟩

theorem records_written {level : Level} {tell : Machine → Operation → Option α} {g : α → Record}
    (htell : ∀ n op, n.Bounded → n.Reloadable →
      level.records (n.perform op).log = ((tell n op).map g).toList)
    (hb : m.Bounded) (hm : m.Reloadable) (ops : List Operation) :
    level.records (m.written ops) = (m.along tell ops).map g := by
  induction ops generalizing m with
  | nil => rfl
  | cons op ops ih =>
      rw [written, transcript, List.flatMap_cons, Level.records_append, htell m op hb hm,
        Option.toList_map, along, List.map_append]
      exact congrArg _ (ih (perform_bounded hb op) (perform_reloadable hm))

inductive Silent (m : Machine) : Operation → Prop
  | tick : Silent m .tick
  | setKey (key : UInt8) (pressed : Bool) : Silent m (.setKey key pressed)
  | unloaded (h : ¬ m.isLoaded) : Silent m .step
  | halted (f : Fault) (hs : m.state = .halted f) : Silent m .step
  | waiting (x : UInt8) (hs : m.state = .awaitingKey x) (hk : m.keypad.held = []) : Silent m .step

theorem perform_log_of_restarts_ne_nil (h : op.restarts) : (m.perform op).log ≠ [] := by
  cases op with
  | load p =>
      rw [perform_load_log, load_eq]
      split
      · exact List.cons_ne_nil _ _
      · exact List.cons_ne_nil _ _
  | reset => exact List.append_ne_nil_of_right_ne_nil _ (List.cons_ne_nil _ _)
  | step | tick | setKey => cases h

theorem step_log_eq_nil_iff : m.step.log = [] ↔ m.Silent .step := by
  by_cases hm : m.isLoaded
  · have hm' := step_of_isLoaded hm
    constructor
    · intro hlog
      cases hs : m.state with
      | running =>
          have hstep := Core.running_step m.config.dialect hs
          rw [hm'] at hlog
          generalize m.toCore.step m.config.dialect = r at hstep hlog
          cases hstep with
          | unfetched | undecoded | executed | faulted => cases hlog
          | waiting x hx | keyed x key hx | stopped f hx => cases hs.symm.trans hx
      | awaitingKey x =>
          rw [hm', Core.step_of_awaiting hs] at hlog
          refine .waiting x hs (List.head?_eq_none_iff.1 (Option.eq_none_iff_forall_ne_some.2 ?_))
          intro key hkey
          rw [Keypad.lowest, hkey] at hlog
          cases hlog
      | halted f => exact .halted f hs
    · rintro (_ | _ | h | ⟨f, hs⟩ | ⟨x, hs, hk⟩)
      · exact absurd hm h
      · rw [step_of_halted hm hs]
      · rw [hm', Core.step_of_waiting hs (List.head?_eq_none_iff.2 hk)]
  · rw [step_of_not_isLoaded hm]
    exact iff_of_true rfl (.unloaded hm)

theorem perform_log_eq_nil_iff : (m.perform op).log = [] ↔ m.Silent op := by
  by_cases hop : op.restarts
  · refine iff_of_false (perform_log_of_restarts_ne_nil hop) ?_
    rintro ⟨⟩ <;> cases hop
  · cases op with
    | load | reset => exact absurd rfl hop
    | step => exact step_log_eq_nil_iff
    | tick => exact iff_of_true rfl .tick
    | setKey key pressed => exact iff_of_true (perform_event_log hop (by simp)) (.setKey key pressed)

/-- A run writes a trace for each instruction that it decodes and an error for each time that it
halts, in this order and with what they show, and no other trace or error. -/
theorem log_accounted :
    (∀ (config : Config) (host : Random.Source) (ops : List Operation),
      let m := powerOn config host
      (Level.trace.records (m.written ops)).map Record.text = (m.along decodes ops).map (fun e =>
        "TRACE " ++ (Text.prefixedHex 3 e.1.toNat ++ ": " ++ e.2.text)) ∧
      (Level.error.records (m.written ops)).map Record.text = (m.along halts ops).map (fun e =>
        "ERROR " ++ ("Halted at " ++ Text.prefixedHex 3 e.1.toNat ++ ": " ++ e.2.message)) ∧
      ∀ e, .reloadFailed e ∉ m.written ops) ∧
    ∀ (m : Machine) (op : Operation), (m.perform op).log = [] ↔ m.Silent op := by
  refine ⟨?_, fun m op => perform_log_eq_nil_iff⟩
  intro config host ops m
  have hm : m.Reloadable := by rintro _ ⟨⟩
  have htrace := records_written (fun n op hb hn => (perform_records hb hn op).1)
    (Core.bounded_fresh _ _) hm ops
  have herror := records_written (fun n op hb hn => (perform_records hb hn op).2)
    (Core.bounded_fresh _ _) hm ops
  refine ⟨?_, ?_, ?_⟩
  · rw [htrace, List.map_map]
    rfl
  · rw [herror, List.map_map]
    rfl
  · intro e he
    have hmem : .reloadFailed e ∈ Level.error.records (m.written ops) :=
      List.mem_filter.2 ⟨he, rfl⟩
    rw [herror] at hmem
    obtain ⟨_, -, hrecord⟩ := List.mem_map.1 hmem
    cases hrecord

theorem step_log_of_error (hm : m.isLoaded) (hs : m.state = .running)
    (hf : m.step.answer = .error f) : m.step.log =
      (m.instructionAt m.pc.toNat).toList.map (.executing m.pc) ++
        [.halted (m.pc + f.moved) f] := by
  have hmoved := ((step_fails_iff hm hs).1 hf).moved_eq
  have hstep := Core.running_step m.config.dialect hs
  rw [step_of_isLoaded hm] at hf ⊢
  generalize m.toCore.step m.config.dialect = r at hstep hf
  cases hstep with
  | unfetched _ hw =>
      cases hf
      rw [Core.instructionAt_of_word?_eq_none hw, Fault.moved, UInt16.add_zero]
      rfl
  | undecoded w _ hw hd =>
      cases hf
      rw [Core.instructionAt_of_word? hw, hd, Fault.moved, UInt16.add_zero]
      rfl
  | executed => cases hf
  | faulted i _ _ hi =>
      cases hf
      rw [hmoved, hi]
      rfl
  | waiting x hx | keyed x _ hx | stopped f hx => cases hs.symm.trans hx

/-- A halt is recorded at the address that the instruction was to be fetched from only where none
could be fetched and decoded. Else it is recorded two bytes behind what the trace shows. -/
theorem halt_located (hm : m.isLoaded) (hs : m.state = .running)
    (hf : m.step.answer = .error f) : ∃ a, Level.error.records m.step.log = [.halted a f] ∧
      a.toNat = m.pc.toNat + f.moved.toNat ∧ (a = m.pc ↔ Level.trace.records m.step.log = []) ∧
      ∀ b i, .executing b i ∈ m.step.log → b = m.pc ∧ a.toNat = b.toNat + 2 := by
  have hmoved := ((step_fails_iff hm hs).1 hf).moved_eq
  rw [step_log_of_error hm hs hf]
  cases hi : m.instructionAt m.pc.toNat with
  | none =>
      rw [hi] at hmoved
      have ha : m.pc + f.moved = m.pc := by
        rw [hmoved]
        exact UInt16.add_zero m.pc
      rw [ha, hmoved]
      refine ⟨m.pc, rfl, rfl, iff_of_true rfl rfl, ?_⟩
      intro b i hlog
      cases List.mem_singleton.1 hlog
  | some i =>
      rw [hi] at hmoved
      have ha : (m.pc + 2).toNat = m.pc.toNat + 2 :=
        Core.toNat_pc_add 2 (Core.lt_of_instructionAt hi) (by decide)
      have hne : m.pc + 2 ≠ m.pc := by
        intro heq
        rw [heq] at ha
        omega
      rw [hmoved]
      refine ⟨m.pc + 2, rfl, ha, iff_of_false hne (List.cons_ne_nil _ _), ?_⟩
      intro b j hlog
      rcases List.mem_cons.1 hlog with hfirst | hlast
      · cases hfirst
        exact ⟨rfl, ha⟩
      · cases List.mem_singleton.1 hlast

theorem halt_located_returning :
    (∃ a, Level.error.records returning.step.log = [.halted a .stackUnderflow] ∧
      a.toNat = 0x202) ∧
    ∃ a, Level.error.records (holding 0xFF 0xFF).step.log = [.halted a (.illegalOpcode 0xFFFF)] ∧
      a.toNat = 0x200 := by
  have hreturning : returning.step.answer = .error .stackUnderflow :=
    (step_fails_iff rfl rfl).2 (returning_faultAt _)
  have hword : (holding 0xFF 0xFF).memory.word? 0x200 = some 0xFFFF :=
    (Memory.initial.word?_overwrite #[0xFF, 0xFF] (k := 0) (by decide)).trans (by decide)
  have hholding : (holding 0xFF 0xFF).step.answer = .error (.illegalOpcode 0xFFFF) :=
    (step_fails_iff rfl rfl).2 (.undecoded _ hword (by decide))
  obtain ⟨a, ha, hat, -⟩ := halt_located (m := returning) rfl rfl hreturning
  obtain ⟨b, hb, hbt, -⟩ := halt_located (m := holding 0xFF 0xFF) rfl rfl hholding
  exact ⟨⟨a, ha, hat⟩, b, hb, hbt⟩

/-- A return from no call is not recorded at the address of the return. -/
theorem halt_misplaced :
    returning.isLoaded ∧ returning.state = .running ∧
      returning.step.answer = .error .stackUnderflow ∧ returning.step.log.map Record.text =
        ["TRACE 0x200: RET", "ERROR Halted at 0x202: return with an empty call stack"] ∧
      ¬ ∀ a f, .halted a f ∈ returning.step.log → a = returning.pc := by
  have hf : returning.step.answer = .error .stackUnderflow :=
    (step_fails_iff rfl rfl).2 (returning_faultAt _)
  have hi : returning.instructionAt 0x200 = some .ret :=
    (holding_instructionAt 0x00 0xEE).trans (by decide)
  have hlog : returning.step.log = [.executing 0x200 .ret, .halted 0x202 .stackUnderflow] := by
    rw [step_log_of_error rfl rfl hf, show returning.pc.toNat = 0x200 from rfl, hi]
    rfl
  rw [hlog]
  refine ⟨rfl, rfl, hf, by decide, ?_⟩
  intro h
  exact absurd (h 0x202 .stackUnderflow (by simp)) (by decide)

end Machine

end Chip8
