import Chip8.Proofs.Execution

namespace Chip8

inductive Timer
  | delay
  | sound

def Timers.left (t : Timers) : Timer → UInt8
  | .delay => t.delay
  | .sound => t.sound

def Instruction.sets : Timer → Instruction → Option UInt8
  | .delay, .setDelay x => some x
  | .sound, .setSound x => some x
  | _, _ => none

/-- What a timer was last set to, and the ticks since then. -/
structure Countdown where
  base : UInt8 := 0
  ticks : Nat := 0

namespace Countdown

def left (c : Countdown) : Nat := c.base.toNat - c.ticks

theorem left_tick (c : Countdown) : left { c with ticks := c.ticks + 1 } = c.left - 1 :=
  Nat.sub_add_eq _ _ _

end Countdown

theorem Timers.toNat_left_tick (t : Timers) (timer : Timer) :
    (t.tick.left timer).toNat = (t.left timer).toNat - 1 := by
  cases timer with
  | delay | sound => exact toNat_countDown _

theorem Core.left_timersAfter (s : Core) (timer : Timer) (i : Instruction) :
    (s.timersAfter i).left timer = (i.sets timer).elim (s.timers.left timer) s.registers.read := by
  cases timer with
  | delay | sound =>
      cases i with
      | _ => rfl

namespace Machine

variable {m : Machine} {timer : Timer} {op : Operation} {ops : List Operation} {c : Countdown}

def setsNext (m : Machine) (timer : Timer) : Option UInt8 :=
  m.executes.bind fun e => e.2.sets timer

def recount (m : Machine) (timer : Timer) (c : Countdown) : Operation → Countdown
  | .load _ | .reset => {}
  | .step => (m.setsNext timer).elim c fun x => { base := m.registers.read x }
  | .tick => { c with ticks := c.ticks + 1 }
  | .setKey .. => c

/-- The account of a timer over a run, `c` being the account before it. -/
def countdown (m : Machine) (timer : Timer) (c : Countdown) : List Operation → Countdown
  | [] => c
  | op :: ops => (m.perform op).next.countdown timer (m.recount timer c op) ops

theorem countdown_step {n : Machine} {a : UInt16} {i : Instruction}
    (he : m.executes = some (a, i)) (hnext : m.step.next = n) (timer : Timer) (c : Countdown)
    (ops : List Operation) : m.countdown timer c (.step :: ops) =
      n.countdown timer ((i.sets timer).elim c fun x => { base := m.registers.read x }) ops := by
  rw [countdown, recount, setsNext, he, perform_step_next, hnext]
  rfl

theorem step_left (hb : m.Bounded) (timer : Timer) : m.step.next.timers.left timer =
    (m.setsNext timer).elim (m.timers.left timer) m.registers.read := by
  rw [setsNext]
  rcases step_cases hb with ⟨i, t, hi, ht, hnext⟩ | ⟨hnone, _, _, _, hnext⟩
  · rw [hnext, hi, Core.effect_timers ht, Core.left_timersAfter]
    rfl
  · rw [hnext, hnone]
    rfl

theorem perform_left (hb : m.Bounded) (h : (m.timers.left timer).toNat = c.left) (op : Operation) :
    ((m.perform op).next.timers.left timer).toNat = (m.recount timer c op).left := by
  cases op with
  | load p =>
      obtain ⟨memory, program, hnext⟩ := m.load_next p
      rw [perform_load_next, hnext]
      cases timer <;> rfl
  | reset =>
      obtain ⟨memory, program, hnext⟩ := m.reset_next
      rw [perform_reset_next, hnext]
      cases timer <;> rfl
  | step =>
      rw [perform_step_next, step_left hb, recount]
      cases m.setsNext timer with
      | none => exact h
      | some x => rfl
  | tick =>
      refine (m.timers.toNat_left_tick timer).trans ?_
      rw [h]
      exact c.left_tick.symm
  | setKey key pressed =>
      obtain ⟨keypad, hnext⟩ := m.perform_setKey_next key pressed
      rw [hnext]
      exact h

theorem performAll_left (hb : m.Bounded) (h : (m.timers.left timer).toNat = c.left) :
    ((m.performAll ops).timers.left timer).toNat = (m.countdown timer c ops).left := by
  induction ops generalizing m c with
  | nil => exact h
  | cons op ops ih => exact ih (perform_bounded hb op) (perform_left hb h op)

theorem step_readDelay {a : UInt16} {x : UInt8} (hb : m.Bounded)
    (h : m.executes = some (a, .readDelay x)) :
    m.step.next.registers.read x = m.timers.left .delay := by
  rcases step_cases hb with ⟨i, t, hi, ht, hnext⟩ | ⟨hnone, -⟩
  · cases h.symm.trans hi
    cases ht
    rw [hnext]
    exact (m.registers.read_write x x m.timers.delay).trans (if_pos rfl)
  · cases h.symm.trans hnone

/-- Whatever a host and its programs do, a timer is at what it was last set to less the ticks since
then, and never below zero. Only ticks count it down, and they do nothing else; a step can only set
it. -/
theorem timers_counted (config : Config) (host : Random.Source) (ops : List Operation) :
    let start := powerOn config host
    let m := start.performAll ops
    let left (timer : Timer) := (start.countdown timer {} ops).left
    (∀ timer, (m.timers.left timer).toNat = left timer) ∧
    (m.timers.isSounding ↔ 0 < left .sound) ∧
    (∀ a x, m.executes = some (a, .readDelay x) →
      (m.step.next.registers.read x).toNat = left .delay) ∧
    (∀ timer, m.step.next.timers.left timer =
      (m.setsNext timer).elim (m.timers.left timer) m.registers.read) ∧
    (m.perform .tick).next = { m with timers := m.timers.tick } := by
  intro start m left
  have hb : m.Bounded := (invariant_bounded config.dialect).performAll host ops
  have hleft (timer : Timer) : (m.timers.left timer).toNat = left timer := by
    apply performAll_left (Core.bounded_fresh _ _)
    cases timer <;> rfl
  refine ⟨hleft, ?_, ?_, step_left hb, rfl⟩
  · rw [← hleft, Timers.isSounding, decide_eq_true_iff, UInt8.lt_iff_toNat_lt]
    rfl
  · intro a x h
    rw [step_readDelay hb h, hleft]

def alarm : Array UInt8 :=
  -- Sets the delay timer to five and reads it back.
  #[0x60, 0x05, 0xF0, 0x15, 0xF1, 0x07]

def alarmAt (pc : UInt16) (registers : Registers) (delay : UInt8) : Machine :=
  { fresh {} (.ofSeed 0) (some alarm) with pc, registers, timers := { delay } }

def alarmed : Machine := alarmAt 0x204 (Registers.zero.write 0 5) 3

theorem alarmAt_instructionAt (pc : UInt16) (registers : Registers) (delay : UInt8) :
    let m := alarmAt pc registers delay
    m.instructionAt 0x200 = some (.setByte 0 5) ∧ m.instructionAt 0x202 = some (.setDelay 0) ∧
      m.instructionAt 0x204 = some (.readDelay 1) := by
  have h (k : Nat) (hk : k < 0xDFF) := instructionAt_fresh {} (.ofSeed 0) alarm hk
  exact ⟨(h 0 (by decide)).trans (by decide), (h 2 (by decide)).trans (by decide),
    (h 4 (by decide)).trans (by decide)⟩

def alarmedBy : List Operation := [.load alarm, .tick, .step, .step, .tick, .tick]

theorem alarmed_run : (powerOn {} (.ofSeed 0)).performAll alarmedBy = alarmed ∧
    (powerOn {} (.ofSeed 0)).countdown .delay {} alarmedBy = ⟨5, 2⟩ := by
  let first := alarmAt 0x200 .zero 0
  let second := alarmAt 0x202 (Registers.zero.write 0 5) 0
  obtain ⟨hset, -, -⟩ := alarmAt_instructionAt 0x200 .zero 0
  obtain ⟨-, hdelay, -⟩ := alarmAt_instructionAt 0x202 (Registers.zero.write 0 5) 0
  have hload : ((powerOn {} (.ofSeed 0)).perform (.load alarm)).next = first :=
    performAll_load {} (.ofSeed 0) (by decide)
  have htick : (first.perform .tick).next = first := rfl
  have hfirst : first.step.next = second :=
    step_next_of_effect (m := first) rfl rfl hset rfl
  have hsecond : second.step.next = alarmAt 0x204 (Registers.zero.write 0 5) 5 :=
    step_next_of_effect (m := second) rfl rfl hdelay rfl
  constructor
  · rw [alarmedBy, performAll_cons, hload, performAll_cons, htick, performAll_cons,
      perform_step_next, hfirst, performAll_cons, perform_step_next, hsecond]
    rfl
  · rw [alarmedBy, countdown, hload, countdown, htick,
      countdown_step (executes_of_effect (m := first) rfl rfl hset rfl) hfirst,
      countdown_step (executes_of_effect (m := second) rfl rfl hdelay rfl) hsecond]
    rfl

theorem timers_counted_alarmed :
    alarmed.executes = some (0x204, .readDelay 1) ∧
      (alarmed.step.next.registers.read 1).toNat = 5 - 2 ∧ ¬ alarmed.timers.isSounding := by
  have hexecutes : alarmed.executes = some (0x204, .readDelay 1) :=
    executes_of_effect (m := alarmed) rfl rfl (alarmAt_instructionAt _ _ _).2.2 rfl
  have hcounted := timers_counted {} (.ofSeed 0) alarmedBy
  dsimp only at hcounted
  rw [alarmed_run.1, alarmed_run.2] at hcounted
  obtain ⟨-, -, hstored, -, -⟩ := hcounted
  exact ⟨hexecutes, hstored 0x204 1 hexecutes, by decide⟩

end Machine

end Chip8
