import Chip8.Proofs.Diagnosis

namespace Chip8

theorem Core.step_answer_eq_error_iff {d : Dialect} {s : Core} {f : Fault} :
    (s.step d).answer = .error f ↔ (s.step d).next.state = .halted f := by
  cases hs : s.state with
  | running =>
      have hstep := running_step d hs
      constructor
      · intro hf
        rw [hstep.next_of_error hs hf]
      · intro hf
        rcases hstep.halted_cases hf with ⟨-, h⟩ | ⟨h, -⟩
        · exact h
        · cases hs.symm.trans h
  | awaitingKey x =>
      rw [step_of_awaiting hs]
      cases s.keypad.lowest with
      | none => simp only [hs, reduceCtorEq]
      | some key =>
          by_cases hx : x.toNat < 16
          · simp only [hx, if_true, reduceCtorEq]
          · simp only [hx, if_false, hs, reduceCtorEq]
  | halted g =>
      rw [(Steps.stopped g hs).step_eq, hs, Except.error.injEq, RunState.halted.injEq]

namespace Machine

variable {m : Machine} {f : Fault} {op : Operation} {ops : List Operation}

theorem haltReason_eq_some_iff : m.haltReason = some f ↔ m.state = .halted f := by
  rw [haltReason]
  cases m.state with
  | halted g => simp only [Option.some.injEq, RunState.halted.injEq]
  | running | awaitingKey => simp only [reduceCtorEq]

theorem step_of_halted (hm : m.isLoaded) (hs : m.state = .halted f) :
    m.step = ⟨.error f, m, []⟩ := by
  have hstep : m.toCore.step m.config.dialect = ⟨.error f, m.toCore, []⟩ := by
    simp only [Core.step, Core.attempt, hs]
    rfl
  rw [step_of_isLoaded hm, hstep]

theorem performAll_of_halted (hm : m.isLoaded) (hs : m.state = .halted f)
    (hops : ∀ op ∈ ops, ¬ op.restarts) :
    ∃ timers keypad, m.performAll ops = { m with timers, keypad } := by
  apply performAll_idle hops
  intro before timers keypad _ h
  have hstep := step_of_halted (m := { m with timers, keypad }) hm hs
  rw [h, hstep]

theorem performAll_of_not_isLoaded (hm : ¬ m.isLoaded) (hops : ∀ op ∈ ops, ¬ op.restarts) :
    ∃ timers keypad, m.performAll ops = { m with timers, keypad } := by
  apply performAll_idle hops
  intro before timers keypad _ h
  have hstep := step_of_not_isLoaded (m := { m with timers, keypad }) hm
  rw [h, hstep]

theorem perform_state_of_restarts (h : op.restarts) : (m.perform op).next.state = .running := by
  obtain ⟨memory, program, hnext⟩ := perform_restart_next (m := m) h
  rw [hnext]

theorem perform_state_of_halted (hm : m.isLoaded) (hs : m.state = .halted f) (op : Operation) :
    (m.perform op).next.state = if op.restarts then .running else .halted f := by
  by_cases h : op.restarts
  · rw [if_pos h]
    exact perform_state_of_restarts h
  · have hops : ∀ o ∈ [op], ¬ o.restarts := List.forall_mem_singleton.2 h
    obtain ⟨timers, keypad, hnext⟩ := performAll_of_halted hm hs hops
    rw [if_neg h, show (m.perform op).next = _ from hnext]
    exact hs

theorem step_of_faultAt (hm : m.isLoaded) (hs : m.state = .running)
    (h : Core.FaultAt m.config.dialect m.toCore m.pc f) :
    m.step.next = { m with pc := m.pc + f.moved, state := .halted f } := by
  have hstep := Core.running_step m.config.dialect hs
  rw [step_of_isLoaded hm, hstep.next_of_error hs ((hstep.answer_eq_error_iff hs).2 h)]

theorem isLoaded_of_state_ne (config : Config) (host : Random.Source) (ops : List Operation) :
    let m := (powerOn config host).performAll ops
    m.state ≠ .running → m.isLoaded := by
  refine performAll_keeps (P := fun n => n.state ≠ .running → n.isLoaded) ?_ ?_ ops
  · intro h
    exact absurd rfl h
  · intro n op ih hs
    by_cases hrestart : op.restarts
    · exact absurd (perform_state_of_restarts hrestart) hs
    · by_cases hstep : op = .step
      · subst hstep
        rw [perform_step_next] at hs ⊢
        by_cases hn : n.isLoaded
        · rw [step_of_isLoaded hn]
          exact hn
        · rw [step_of_not_isLoaded hn] at hs ⊢
          exact ih hs
      · obtain ⟨timers, keypad, hnext⟩ := perform_event_next (m := n) hrestart hstep
        rw [hnext] at hs ⊢
        exact ih hs

/-- A halted machine answers its fault to every step, and nothing but the timers and the keys ever
changes, until it is started over. A machine without a program is as inert. -/
theorem halted_inert :
    (∀ (config : Config) (host : Random.Source) (history : List Operation) (f : Fault),
      let m := (powerOn config host).performAll history
      m.state = .halted f →
        (∀ ops : List Operation, (∀ op ∈ ops, ¬ op.restarts) →
          let n := m.performAll ops
          n.step = ⟨.error f, n, []⟩ ∧ n.state = .halted f ∧ n.haltReason = some f ∧
            n = { m with timers := n.timers, keypad := n.keypad }) ∧
        ∀ op : Operation,
          (m.perform op).next.state = if op.restarts then .running else .halted f) ∧
    ∀ (m : Machine), ¬ m.isLoaded → ∀ ops : List Operation, (∀ op ∈ ops, ¬ op.restarts) →
      let n := m.performAll ops
      n.step = ⟨.error .noProgram, n, []⟩ ∧
        n = { m with timers := n.timers, keypad := n.keypad } := by
  constructor
  · intro config host history f m hs
    have hm : m.isLoaded := by
      apply isLoaded_of_state_ne config host history
      rw [show m.state = _ from hs]
      rintro ⟨⟩
    refine ⟨fun ops hops => ?_, perform_state_of_halted hm hs⟩
    obtain ⟨timers, keypad, h⟩ := performAll_of_halted hm hs hops
    dsimp only
    rw [h]
    exact ⟨step_of_halted hm hs, hs, haltReason_eq_some_iff.2 hs, rfl⟩
  · intro m hm ops hops
    obtain ⟨timers, keypad, h⟩ := performAll_of_not_isLoaded hm hops
    dsimp only
    rw [h]
    exact ⟨step_of_not_isLoaded hm, rfl⟩

theorem halted_inert_returning :
    let m := (powerOn {} (.ofSeed 0)).performAll [.load #[0x00, 0xEE], .step]
    let n := m.performAll [.step, .setKey 5 true, .tick, .step]
    let unloaded := (powerOn {} (.ofSeed 0)).performAll [.setKey 5 true, .step]
    m.state = .halted .stackUnderflow ∧ n.step = ⟨.error .stackUnderflow, n, []⟩ ∧
      unloaded.step = ⟨.error .noProgram, unloaded, []⟩ := by
  intro m n unloaded
  have hm : m = returning.step.next :=
    congrArg (fun k : Machine => k.step.next) (performAll_load {} (.ofSeed 0) (by decide))
  have hs : m.state = .halted .stackUnderflow := by
    rw [hm, step_of_faultAt rfl rfl (returning_faultAt _)]
  refine ⟨hs, ?_, ?_⟩
  · exact ((halted_inert.1 {} (.ofSeed 0) _ .stackUnderflow hs).1 _ (by decide)).1
  · exact (halted_inert.2 (powerOn {} (.ofSeed 0)) (by decide) _ (by decide)).1

end Machine

end Chip8
