import Chip8.Machine.Operation

namespace Chip8

def Operation.restarts : Operation → Bool
  | .load _ | .reset => true
  | .step | .tick | .setKey .. => false

namespace Machine

variable {m : Machine} {config : Config} {op : Operation} {ops : List Operation}

theorem reload_next (m : Machine) :
    ∃ memory program, m.reload.next = { m with memory, program } := by
  simp only [reload]
  split
  · exact ⟨_, _, rfl⟩
  · split
    · exact ⟨_, _, rfl⟩
    · exact ⟨_, _, rfl⟩

theorem reset_next (m : Machine) : ∃ memory program, m.reset.next =
    { memory, random := m.config.source m.random, config := m.config, program } := by
  obtain ⟨memory, program, h⟩ := m.reload_next
  exact ⟨memory, program, by simp only [reset, Core.restart, h]⟩

theorem load_next (m : Machine) (p : Array UInt8) : ∃ memory program, (m.load p).next =
    { memory, random := m.config.source m.random, config := m.config, program } := by
  obtain ⟨memory, program, h⟩ := reset_next { m with program := none }
  simp only [load, h]
  split
  · exact ⟨_, _, rfl⟩
  · exact ⟨_, _, rfl⟩

theorem step_next (m : Machine) :
    m.step.next = m ∨
      m.step.next = { m with toCore := (m.toCore.step m.config.dialect).next } := by
  simp only [step]
  split
  · exact .inl rfl
  · exact .inr rfl

theorem step_of_isLoaded (h : m.isLoaded) : m.step =
    ⟨(m.toCore.step m.config.dialect).answer,
      { m with toCore := (m.toCore.step m.config.dialect).next },
      (m.toCore.step m.config.dialect).log⟩ := by
  obtain ⟨p, hp⟩ := Option.isSome_iff_exists.1 h
  simp only [step, hp]

theorem perform_load_next (m : Machine) (p : Array UInt8) :
    (m.perform (.load p)).next = (m.load p).next := by
  simp only [perform]
  split <;> rfl

theorem perform_reset_next (m : Machine) : (m.perform .reset).next = m.reset.next := rfl

theorem perform_step_next (m : Machine) : (m.perform .step).next = m.step.next := rfl

theorem step_of_not_isLoaded (h : ¬ m.isLoaded) : m.step = ⟨.error .noProgram, m, []⟩ := by
  have hm : m.program = none := Option.not_isSome_iff_eq_none.1 h
  simp only [step, hm]

theorem perform_setKey_next (m : Machine) (key : UInt8) (pressed : Bool) :
    ∃ keypad, (m.perform (.setKey key pressed)).next = { m with keypad } := by
  simp only [perform, setKey]
  cases m.keypad.set key pressed with
  | ok keypad => exact ⟨keypad, rfl⟩
  | error e => exact ⟨m.keypad, rfl⟩

theorem perform_restart_next (h : op.restarts) : ∃ memory program, (m.perform op).next =
    { memory, random := m.config.source m.random, config := m.config, program } := by
  cases op with
  | load p =>
      rw [perform_load_next]
      exact m.load_next p
  | reset => exact m.reset_next
  | step | tick | setKey => cases h

theorem perform_event_next (h : ¬ op.restarts) (hstep : op ≠ .step) :
    ∃ timers keypad, (m.perform op).next = { m with timers, keypad } := by
  cases op with
  | load | reset => exact absurd rfl h
  | step => exact absurd rfl hstep
  | tick => exact ⟨_, m.keypad, rfl⟩
  | setKey key pressed =>
      obtain ⟨keypad, hnext⟩ := m.perform_setKey_next key pressed
      exact ⟨m.timers, keypad, hnext⟩

theorem perform_program (h : ¬ op.restarts) : (m.perform op).next.program = m.program := by
  by_cases hstep : op = .step
  · subst hstep
    rw [perform_step_next]
    obtain h | h := m.step_next
    · rw [h]
    · rw [h]
  · obtain ⟨timers, keypad, h⟩ := perform_event_next h hstep
    rw [h]

theorem performAll_cons (m : Machine) (op : Operation) (ops : List Operation) :
    m.performAll (op :: ops) = (m.perform op).next.performAll ops := rfl

theorem performAll_append (m : Machine) (ops rest : List Operation) :
    m.performAll (ops ++ rest) = (m.performAll ops).performAll rest :=
  List.foldl_append

theorem performAll_induction {P : List Operation → Machine → Prop} (hm : P [] m)
    (hop : ∀ ops n op, P ops n → P (ops ++ [op]) (n.perform op).next) (ops : List Operation) :
    P ops (m.performAll ops) := by
  have h (done rest : List Operation) (n : Machine) (hn : P done n) :
      P (done ++ rest) (n.performAll rest) := by
    induction rest generalizing done n with
    | nil => simpa only [List.append_nil, performAll, List.foldl_nil] using hn
    | cons op rest ih =>
        rw [List.append_cons]
        exact ih (done ++ [op]) (n.perform op).next (hop done n op hn)
  exact h [] ops m hm

theorem performAll_keeps {P : Machine → Prop} (hm : P m)
    (hop : ∀ m op, P m → P (m.perform op).next) (ops : List Operation) :
    P (m.performAll ops) :=
  performAll_induction (P := fun _ => P) hm (fun _ => hop) ops

def stepped (m : Machine) (n : Nat) : Machine := m.performAll (List.replicate n .step)

theorem stepped_add (m : Machine) (n k : Nat) : m.stepped (n + k) = (m.stepped n).stepped k := by
  rw [stepped, ← List.replicate_append_replicate, performAll_append]
  rfl

theorem stepped_succ (m : Machine) (n : Nat) : m.stepped (n + 1) = (m.stepped n).step.next :=
  m.stepped_add n 1

/-- Where no step in a run changes anything, the run comes to what the host does to the timers and
the keys. Of each step one may assume that it has come to no more so far. -/
theorem performAll_idle (hops : ∀ op ∈ ops, ¬ op.restarts)
    (hstep : ∀ before timers keypad, before ++ [.step] <+: ops →
      m.performAll before = { m with timers, keypad } →
        (m.performAll before).step.next = m.performAll before) :
    ∃ timers keypad, m.performAll ops = { m with timers, keypad } := by
  refine (performAll_induction (P := fun done n => done <+: ops → n = m.performAll done ∧
    ∃ timers keypad, n = { m with timers, keypad }) ?_ ?_ ops (List.prefix_refl ops)).2
  · exact fun _ => ⟨rfl, m.timers, m.keypad, rfl⟩
  · intro done n op ih hdone
    obtain ⟨hn, timers, keypad, hnext⟩ := ih ((List.prefix_append done [op]).trans hdone)
    refine ⟨by rw [performAll_append, ← hn]; rfl, ?_⟩
    by_cases h : op = .step
    · subst h
      refine ⟨timers, keypad, ?_⟩
      rw [perform_step_next, hn, hstep done timers keypad hdone (hn ▸ hnext), ← hn, hnext]
    · have hop : op ∈ ops := hdone.subset (List.mem_append_right done List.mem_cons_self)
      obtain ⟨timers', keypad', hevent⟩ := perform_event_next (m := n) (hops op hop) h
      refine ⟨timers', keypad', hevent.trans ?_⟩
      rw [hnext]

/-- What holds whenever a run comes to a step. -/
def AtSteps (P : Machine → Prop) (m : Machine) (ops : List Operation) : Prop :=
  ∀ before, before ++ [.step] <+: ops → P (m.performAll before)

theorem AtSteps.of_prefix {P : Machine → Prop} {before : List Operation} (h : m.AtSteps P ops)
    (hbefore : before <+: ops) : m.AtSteps P before :=
  fun first hfirst => h first (hfirst.trans hbefore)

theorem atSteps_nil (P : Machine → Prop) (m : Machine) : m.AtSteps P [] := by
  intro before h
  exact absurd (List.prefix_nil.1 h) (List.append_ne_nil_of_right_ne_nil _ (List.cons_ne_nil _ _))

theorem atSteps_cons {P : Machine → Prop} : m.AtSteps P (op :: ops) ↔
    (op = .step → P m) ∧ (m.perform op).next.AtSteps P ops := by
  constructor
  · intro h
    refine ⟨?_, fun before hbefore => ?_⟩
    · rintro rfl
      exact h [] ⟨ops, rfl⟩
    · exact h (op :: before) ((List.prefix_cons_inj op).2 hbefore)
  · rintro ⟨hop, hops⟩ before hbefore
    cases before with
    | nil =>
        obtain ⟨rfl, -⟩ := List.cons_prefix_cons.1 hbefore
        exact hop rfl
    | cons first before =>
        obtain ⟨rfl, hrest⟩ := List.cons_prefix_cons.1 hbefore
        exact hops before hrest

theorem atSteps_append {P : Machine → Prop} {rest : List Operation} : m.AtSteps P (ops ++ rest) ↔
    m.AtSteps P ops ∧ (m.performAll ops).AtSteps P rest := by
  induction ops generalizing m with
  | nil => exact (and_iff_right (atSteps_nil P m)).symm
  | cons op ops ih =>
      rw [List.cons_append, atSteps_cons, atSteps_cons, ih, and_assoc, performAll_cons]

def transcript (m : Machine) : List Operation → List (Answer × List Record)
  | [] => []
  | op :: ops =>
      ((m.perform op).answer, (m.perform op).log) :: (m.perform op).next.transcript ops

/-- A second machine goes along with a first one through an operation. -/
def Follows (g : Machine → Machine) (m : Machine) (op : Operation) : Prop :=
  (g m).perform op = ⟨(m.perform op).answer, g (m.perform op).next, (m.perform op).log⟩

theorem performAll_follow {g : Machine → Machine} {P : Machine → Prop}
    (hg : ∀ n, ∀ op ∈ ops, (op = .step → P n) → Follows g n op) (h : m.AtSteps P ops) :
    (g m).transcript ops = m.transcript ops ∧ (g m).performAll ops = g (m.performAll ops) := by
  induction ops generalizing m with
  | nil => exact ⟨rfl, rfl⟩
  | cons op ops ih =>
      obtain ⟨hop, hops⟩ := atSteps_cons.1 h
      obtain ⟨htold, hlast⟩ := ih (fun n op hop => hg n op (List.mem_cons_of_mem _ hop)) hops
      have hfirst : Follows g m op := hg m op List.mem_cons_self hop
      rw [Follows] at hfirst
      rw [transcript, transcript, performAll_cons, performAll_cons, hfirst, htold, hlast]
      exact ⟨rfl, rfl⟩

theorem perform_next_config (m : Machine) (op : Operation) :
    (m.perform op).next.config = m.config := by
  cases op with
  | load p =>
      obtain ⟨memory, program, h⟩ := m.load_next p
      rw [perform_load_next, h]
  | reset =>
      obtain ⟨memory, program, h⟩ := m.reset_next
      rw [perform_reset_next, h]
  | step =>
      rw [perform_step_next]
      obtain h | h := m.step_next
      · rw [h]
      · rw [h]
  | tick => rfl
  | setKey key pressed =>
      obtain ⟨keypad, h⟩ := m.perform_setKey_next key pressed
      rw [h]

theorem performAll_config (m : Machine) (ops : List Operation) :
    (m.performAll ops).config = m.config :=
  performAll_keeps (P := fun n => n.config = m.config) rfl
    (fun n op h => (n.perform_next_config op).trans h) ops

/-- An invariant of the core. Power-on gives it, whatever is in memory, a step keeps it, and it does
not depend on what a host changes between the steps. -/
structure Invariant (d : Dialect) (Q : Core → Prop) : Prop where
  fresh : ∀ memory random, Q { memory, random }
  step : ∀ s, Q s → Q (s.step d).next
  devices : ∀ s timers keypad, Q s → Q { s with timers, keypad }

theorem Invariant.perform {Q : Core → Prop} (hQ : Invariant config.dialect Q)
    (hconfig : m.config = config) (hm : Q m.toCore) (op : Operation) :
    Q (m.perform op).next.toCore := by
  cases op with
  | load p =>
      obtain ⟨memory, program, h⟩ := m.load_next p
      rw [perform_load_next, h]
      exact hQ.fresh _ _
  | reset =>
      obtain ⟨memory, program, h⟩ := m.reset_next
      rw [perform_reset_next, h]
      exact hQ.fresh _ _
  | step =>
      rw [perform_step_next]
      obtain h | h := m.step_next
      · rw [h]
        exact hm
      · rw [h]
        exact hconfig ▸ hQ.step _ hm
  | tick => exact hQ.devices _ _ _ hm
  | setKey key pressed =>
      obtain ⟨keypad, h⟩ := m.perform_setKey_next key pressed
      rw [h]
      exact hQ.devices _ m.timers _ hm

theorem Invariant.performAll {Q : Core → Prop} (hQ : Invariant config.dialect Q)
    (host : Random.Source) (ops : List Operation) :
    Q ((powerOn config host).performAll ops).toCore := by
  refine (performAll_keeps (P := fun m => m.config = config ∧ Q m.toCore) ⟨rfl, ?_⟩ ?_ ops).2
  · exact hQ.fresh _ _
  · rintro m op ⟨hconfig, hm⟩
    exact ⟨(m.perform_next_config op).trans hconfig, hQ.perform hconfig hm op⟩

end Machine

end Chip8
