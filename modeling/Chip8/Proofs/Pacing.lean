import Chip8.Machine.Playback
import Chip8.Proofs.Countdown
import Chip8.Proofs.Halting

namespace Chip8

namespace Operation

variable {frames cycles : Nat}

/-- The operations of so many frames: in each so many steps, and then a tick. -/
def pace (frames cycles : Nat) : List Operation :=
  (List.replicate frames (List.replicate cycles .step ++ [.tick])).flatten

theorem pace_succ (frames cycles : Nat) :
    pace (frames + 1) cycles = (List.replicate cycles .step ++ [.tick]) ++ pace frames cycles := by
  rw [pace, List.replicate_succ, List.flatten_cons]
  rfl

theorem pace_add (first rest cycles : Nat) :
    pace (first + rest) cycles = pace first cycles ++ pace rest cycles := by
  rw [pace, ← List.replicate_append_replicate, List.flatten_append]
  rfl

theorem eq_of_mem_pace {op : Operation} (h : op ∈ pace frames cycles) :
    op = .step ∨ op = .tick := by
  obtain ⟨frame, hframe, hop⟩ := List.mem_flatten.1 h
  obtain rfl := List.eq_of_mem_replicate hframe
  rcases List.mem_append.1 hop with hop | hop
  · exact .inl (List.eq_of_mem_replicate hop)
  · exact .inr (List.mem_singleton.1 hop)

theorem not_restarts_of_mem_pace {op : Operation} (h : op ∈ pace frames cycles) :
    ¬ op.restarts := by
  rcases eq_of_mem_pace h with rfl | rfl
  · rintro ⟨⟩
  · rintro ⟨⟩

theorem count_tick_pace (frames cycles : Nat) : (pace frames cycles).count .tick = frames := by
  induction frames with
  | zero => rfl
  | succ frames ih =>
      rw [pace_succ, List.count_append, List.count_append, ih, List.count_replicate,
        List.count_singleton_self]
      exact Nat.add_comm _ _

theorem prefix_pace {frame cycle : Nat} (hframe : frame < frames) (hcycle : cycle < cycles) :
    pace frame cycles ++ List.replicate cycle .step ++ [.step] <+: pace frames cycles := by
  obtain ⟨later, rfl⟩ : ∃ later, frames = frame + (later + 1) := ⟨frames - frame - 1, by omega⟩
  obtain ⟨more, rfl⟩ : ∃ more, cycles = cycle + (1 + more) := ⟨cycles - cycle - 1, by omega⟩
  rw [pace_add, pace_succ, ← List.replicate_append_replicate, ← List.replicate_append_replicate]
  refine ⟨List.replicate more .step ++ [.tick] ++ pace later (cycle + (1 + more)), ?_⟩
  simp only [List.append_assoc, List.replicate_one]

end Operation

open Operation

namespace Machine

variable {m n k : Machine} {op : Operation} {ops rest : List Operation} {f : Fault}
  {fault : Option Fault}

abbrev Clean (m : Machine) (ops : List Operation) : Prop :=
  m.AtSteps (fun n => ∀ f, n.step.answer ≠ .error f) ops

/-- Where a run comes to if its first failing step ends it, and the fault of that step. -/
inductive Ends (m : Machine) (ops : List Operation) : Machine → Option Fault → Prop
  | whole (h : m.Clean ops) : Ends m ops (m.performAll ops) none
  | short (before : List Operation) (f : Fault) (hops : before ++ [.step] <+: ops)
      (h : m.Clean before) (hf : (m.performAll before).step.answer = .error f) :
      Ends m ops (m.performAll before).step.next (some f)

theorem Ends.append (h : Ends m ops n none) (hrest : Ends n rest k fault) :
    Ends m (ops ++ rest) k fault := by
  cases h with
  | whole h =>
      cases hrest with
      | whole hrest =>
          rw [← performAll_append]
          exact .whole (atSteps_append.2 ⟨h, hrest⟩)
      | short before f hops hbefore hf =>
          rw [← performAll_append] at hf ⊢
          refine .short _ f ?_ (atSteps_append.2 ⟨h, hbefore⟩) hf
          rw [List.append_assoc]
          exact (List.prefix_append_right_inj ops).2 hops

theorem Ends.append_of_fault (h : Ends m ops n (some f)) (rest : List Operation) :
    Ends m (ops ++ rest) n (some f) := by
  cases h with
  | short before f hops hbefore hf =>
      exact .short before f (hops.trans (List.prefix_append ops rest)) hbefore hf

theorem Ends.clean_or_fails (h : Ends m ops n fault) : m.Clean ops ∨
    ∃ before f, before ++ [.step] <+: ops ∧ m.Clean before ∧
      (m.performAll before).step.answer = .error f := by
  cases h with
  | whole h => exact .inl h
  | short before f hops h hf => exact .inr ⟨before, f, hops, h, hf⟩

theorem Ends.eq_of_clean (h : Ends m ops n fault) (hclean : m.Clean ops) :
    n = m.performAll ops ∧ fault = none := by
  cases h with
  | whole => exact ⟨rfl, rfl⟩
  | short before f hops _ hf => exact absurd hf (hclean before hops f)

theorem Ends.clean_iff (h : Ends m ops n fault) : m.Clean ops ↔ fault = none := by
  constructor
  · intro hclean
    exact (h.eq_of_clean hclean).2
  · rintro rfl
    cases h with
    | whole hclean => exact hclean

theorem Ends.eq_of_fault {before : List Operation} (h : Ends m ops n fault)
    (hops : before ++ [.step] <+: ops) (hclean : m.Clean before)
    (hf : (m.performAll before).step.answer = .error f) :
    n = (m.performAll before).step.next ∧ fault = some f := by
  -- Of two failing steps with none before them, neither comes before the other.
  have hlength {b c : List Operation} (hb : b ++ [.step] <+: ops) (hc : c ++ [.step] <+: ops)
      (hclean : m.Clean c) (hf : ∃ f, (m.performAll b).step.answer = .error f) :
      c.length ≤ b.length := by
    apply Nat.le_of_not_lt
    intro hlt
    obtain ⟨f, hf⟩ := hf
    refine hclean b ?_ f hf
    apply List.prefix_of_prefix_length_le hb ((List.prefix_append c _).trans hc)
    rw [List.length_append, List.length_singleton]
    exact hlt
  cases h with
  | whole h => exact absurd hf (h before hops f)
  | short before' f' hops' hclean' hf' =>
      have hsame : before.length = before'.length :=
        Nat.le_antisymm (hlength hops' hops hclean ⟨f', hf'⟩) (hlength hops hops' hclean' ⟨f, hf⟩)
      have hbefore : before <+: before' := by
        apply List.prefix_of_prefix_length_le ((List.prefix_append before _).trans hops)
          ((List.prefix_append before' _).trans hops') (Nat.le_of_eq hsame)
      obtain rfl := hbefore.eq_of_length hsame
      cases hf.symm.trans hf'
      exact ⟨rfl, rfl⟩

theorem Ends.unique {fault' : Option Fault} (h : Ends m ops n fault) (h' : Ends m ops k fault') :
    n = k ∧ fault = fault' := by
  cases h' with
  | whole hclean => exact h.eq_of_clean hclean
  | short before f hops hclean hf => exact h.eq_of_fault hops hclean hf

theorem Ends.follow {g : Machine → Machine} {P : Machine → Prop} (h : Ends m ops n fault)
    (hg : ∀ n, ∀ op ∈ ops, (op = .step → P n) → Follows g n op) (hP : m.AtSteps P ops) :
    Ends (g m) ops (g n) fault := by
  have hstep {before : List Operation} (hops : before ++ [.step] <+: ops) :
      (g m).performAll before = g (m.performAll before) ∧
        (g (m.performAll before)).step.answer = (m.performAll before).step.answer ∧
          (g (m.performAll before)).step.next = g (m.performAll before).step.next := by
    have hbefore : before <+: ops := (List.prefix_append before _).trans hops
    have hmem : .step ∈ ops := hops.subset (List.mem_append_right before List.mem_cons_self)
    have hfollows : Follows g (m.performAll before) .step := hg _ _ hmem fun _ => hP before hops
    refine ⟨?_, Answer.stepped.inj (congrArg Transition.answer hfollows),
      congrArg Transition.next hfollows⟩
    exact (performAll_follow (fun n op hop => hg n op (hbefore.subset hop))
      (hP.of_prefix hbefore)).2
  have hclean {first : List Operation} (hfirst : first <+: ops) (h : m.Clean first) :
      (g m).Clean first := by
    intro before hbefore f
    obtain ⟨hrun, hanswer, -⟩ := hstep (hbefore.trans hfirst)
    rw [hrun, hanswer]
    exact h before hbefore f
  cases h with
  | whole h =>
      rw [← (performAll_follow hg hP).2]
      exact .whole (hclean (List.prefix_refl ops) h)
  | short before f hops h hf =>
      obtain ⟨hrun, hanswer, hnext⟩ := hstep hops
      rw [← hnext, ← hrun]
      refine .short before f hops (hclean ((List.prefix_append before _).trans hops) h) ?_
      rw [hrun, hanswer, hf]

end Machine

namespace Playback

open Machine

variable {p : Playback}

theorem ends_step (listener : Level) (p : Playback) (hp : p.fault = none) :
    Ends p.machine [.step] (p.step listener).machine (p.step listener).fault := by
  have hclean (hanswer : ∀ f, p.machine.step.answer ≠ .error f) : p.machine.Clean [.step] :=
    atSteps_cons.2 ⟨fun _ => hanswer, atSteps_nil _ _⟩
  simp only [step]
  split
  case h_1 h | h_2 h =>
      rw [hp]
      apply Ends.whole
      apply hclean
      intro f hf
      cases h.symm.trans hf
  case h_3 f h => exact .short [] f (List.prefix_refl _) (atSteps_nil _ _) h

theorem ends_steps (listener : Level) (cycles : Nat) (p : Playback) (hp : p.fault = none) :
    Ends p.machine (List.replicate cycles .step) (p.steps listener cycles).machine
      (p.steps listener cycles).fault := by
  induction cycles generalizing p with
  | zero =>
      rw [steps, hp]
      exact .whole (atSteps_nil _ _)
  | succ cycles ih =>
      have hstep := ends_step listener p hp
      rw [List.replicate_succ, ← List.singleton_append]
      simp only [steps]
      split
      next h =>
        obtain ⟨f, hf⟩ := Option.isSome_iff_exists.1 h
        rw [hf] at hstep ⊢
        exact hstep.append_of_fault _
      next h =>
        have hnone := Option.not_isSome_iff_eq_none.1 h
        rw [hnone] at hstep
        exact hstep.append (ih _ hnone)

theorem ends_frames (listener : Level) (cycles frames : Nat) (p : Playback) (hp : p.fault = none) :
    Ends p.machine (pace frames cycles) (p.frames listener cycles frames).machine
      (p.frames listener cycles frames).fault := by
  induction frames generalizing p with
  | zero =>
      rw [Playback.frames, hp]
      exact .whole (atSteps_nil _ _)
  | succ frames ih =>
      have hsteps := ends_steps listener cycles p hp
      rw [pace_succ, List.append_assoc]
      simp only [Playback.frames]
      split
      next h =>
        obtain ⟨f, hf⟩ := Option.isSome_iff_exists.1 h
        rw [hf] at hsteps ⊢
        exact hsteps.append_of_fault _
      next h =>
        have hnone := Option.not_isSome_iff_eq_none.1 h
        rw [hnone] at hsteps
        have htick (n : Machine) : Ends n [.tick] n.tick none :=
          .whole (atSteps_cons.2 ⟨by rintro ⟨⟩, atSteps_nil _ _⟩)
        exact hsteps.append ((htick _).append (ih { (p.steps listener cycles) with
          machine := (p.steps listener cycles).machine.tick } hnone))

end Playback

namespace Machine

variable {m n : Machine} {ops : List Operation} {f : Fault}

theorem ends_play (m : Machine) (listener : Level) (frames cycles : Nat) :
    Ends m (pace frames cycles) (m.play listener frames cycles).machine
      (m.play listener frames cycles).fault :=
  Playback.ends_frames listener cycles frames { machine := m } rfl

def Inert (m : Machine) : Prop := ¬ m.isLoaded ∨ ∃ f, m.state = .halted f

theorem Inert.step_next (h : m.Inert) : m.step.next = m := by
  rcases h with hm | ⟨f, hs⟩
  · rw [step_of_not_isLoaded hm]
  · by_cases hm : m.isLoaded
    · rw [step_of_halted hm hs]
    · rw [step_of_not_isLoaded hm]

theorem inert_of_error (hf : m.step.answer = .error f) : m.step.next.Inert := by
  by_cases hm : m.isLoaded
  · rw [step_of_isLoaded hm] at hf ⊢
    exact .inr ⟨f, Core.step_answer_eq_error_iff.1 hf⟩
  · rw [step_of_not_isLoaded hm]
    exact .inl hm

theorem Inert.performAll (h : m.Inert) (hops : ∀ op ∈ ops, op = .step ∨ op = .tick) :
    ∃ timers, m.performAll ops = { m with timers } ∧
      ∀ timer, (timers.left timer).toNat = (m.timers.left timer).toNat - ops.count .tick := by
  induction ops generalizing m with
  | nil => exact ⟨m.timers, rfl, fun _ => rfl⟩
  | cons op ops ih =>
      have ih {m : Machine} (h : m.Inert) := ih h fun op hop => hops op (List.mem_cons_of_mem _ hop)
      rw [performAll_cons]
      rcases hops op List.mem_cons_self with rfl | rfl
      · rw [perform_step_next, h.step_next, List.count_cons_of_ne (by rintro ⟨⟩)]
        exact ih h
      · obtain ⟨timers, hrun, hleft⟩ := ih (m := m.tick) h
        refine ⟨timers, hrun, fun timer => ?_⟩
        rw [hleft, List.count_cons_self]
        simp only [tick, Timers.toNat_left_tick]
        omega

/-- What a run that stops at the first failing step has missed shows in the timers alone, and these
have missed a tick for each frame from that step's on. -/
theorem play_performAll (m : Machine) (listener : Level) (frames cycles : Nat) :
    let stopped := (m.play listener frames cycles).machine
    let full := m.performAll (pace frames cycles)
    full = { stopped with timers := full.timers } ∧
    (m.Clean (pace frames cycles) → full = stopped) ∧
    ∀ frame cycle f, frame < frames → cycle < cycles →
      let before := pace frame cycles ++ List.replicate cycle .step
      m.Clean before → (m.performAll before).step.answer = .error f →
        ∀ timer, (full.timers.left timer).toNat =
          (stopped.timers.left timer).toNat - (frames - frame) := by
  intro stopped full
  have hends : Ends m (pace frames cycles) stopped (m.play listener frames cycles).fault :=
    m.ends_play listener frames cycles
  -- Behind the failing step, the full run does nothing but tick.
  have hlate {before : List Operation} {f : Fault} (hops : before ++ [.step] <+: pace frames cycles)
      (hclean : m.Clean before) (hf : (m.performAll before).step.answer = .error f) :
      ∃ timers, full = { stopped with timers } ∧ ∀ timer, (timers.left timer).toNat =
        (stopped.timers.left timer).toNat - (frames - before.count .tick) := by
    obtain ⟨rest, hrest⟩ := hops
    have hfull : full = stopped.performAll rest := by
      rw [(hends.eq_of_fault ⟨rest, hrest⟩ hclean hf).1]
      simp only [full]
      rw [← hrest, performAll_append, performAll_append]
      rfl
    have hticks : rest.count .tick = frames - before.count .tick := by
      have h := count_tick_pace frames cycles
      rw [← hrest, List.count_append, List.count_append, List.count_singleton] at h
      have hne : (Operation.step == Operation.tick) = false := rfl
      simp only [hne, Bool.false_eq_true, if_false] at h
      omega
    rw [hfull, ← hticks]
    apply Inert.performAll
    · rw [(hends.eq_of_fault ⟨rest, hrest⟩ hclean hf).1]
      exact inert_of_error hf
    · intro op hop
      exact eq_of_mem_pace (hrest ▸ List.mem_append_right _ hop)
  refine ⟨?_, fun hclean => (hends.eq_of_clean hclean).1.symm, ?_⟩
  · rcases hends.clean_or_fails with hclean | ⟨before, f, hops, hclean, hf⟩
    · rw [(hends.eq_of_clean hclean).1]
    · obtain ⟨timers, hfull, -⟩ := hlate hops hclean hf
      rw [hfull]
  · intro frame cycle f hframe hcycle before hclean hf timer
    obtain ⟨timers, hfull, hleft⟩ := hlate (prefix_pace hframe hcycle) hclean hf
    have hticks : before.count .tick = frame := by
      rw [List.count_append, count_tick_pace, List.count_replicate]
      rfl
    rw [hfull, ← hticks]
    exact hleft timer

def expiry : Array UInt8 :=
  -- Sets the delay timer to five, and returns without a call.
  #[0x60, 0x05, 0xF0, 0x15, 0x00, 0xEE]

def expiringAt (pc : UInt16) (registers : Registers) (delay : UInt8) : Machine :=
  { fresh {} (.ofSeed 0) (some expiry) with pc, registers, timers := { delay } }

theorem expiringAt_instructionAt (pc : UInt16) (registers : Registers) (delay : UInt8) :
    let m := expiringAt pc registers delay
    m.instructionAt 0x200 = some (.setByte 0 5) ∧ m.instructionAt 0x202 = some (.setDelay 0) ∧
      m.instructionAt 0x204 = some .ret := by
  have h (k : Nat) (hk : k < 0xDFF) := instructionAt_fresh {} (.ofSeed 0) expiry hk
  exact ⟨(h 0 (by decide)).trans (by decide), (h 2 (by decide)).trans (by decide),
    (h 4 (by decide)).trans (by decide)⟩

def expiring : Machine := expiringAt 0x204 (Registers.zero.write 0 5) 4

theorem play_performAll_expired :
    let m := expiringAt 0x200 .zero 0
    let stopped := (m.play .error 4 2).machine
    let full := m.performAll (pace 4 2)
    stopped.timers.delay = 4 ∧ full.timers.delay = 1 ∧
      full = { stopped with timers := full.timers } := by
  intro m stopped full
  let before : List Operation := pace 1 2 ++ List.replicate 0 .step
  let second := expiringAt 0x202 (Registers.zero.write 0 5) 0
  have hfirst : m.step = ⟨.ok .advanced, second, [.executing 0x200 (.setByte 0 5)]⟩ :=
    step_of_effect (m := m) rfl rfl (expiringAt_instructionAt _ _ _).1 rfl
  have hsecond : second.step = ⟨.ok .advanced, expiringAt 0x204 (Registers.zero.write 0 5) 5,
      [.executing 0x202 (.setDelay 0)]⟩ :=
    step_of_effect (m := second) rfl rfl (expiringAt_instructionAt _ _ _).2.1 rfl
  have hret : expiring.instructionAt 0x204 = some .ret := (expiringAt_instructionAt _ _ _).2.2
  have hrun : m.performAll before = expiring := by
    have htick : (expiringAt 0x204 (Registers.zero.write 0 5) 5).tick = expiring := rfl
    have h : m.performAll before = m.step.next.step.next.tick := rfl
    rw [h, hfirst, hsecond, htick]
  have hclean : m.Clean before := by
    refine atSteps_cons.2 ⟨fun _ f hf => ?_, atSteps_cons.2 ⟨fun _ f hf => ?_, ?_⟩⟩
    · rw [hfirst] at hf
      cases hf
    · rw [perform_step_next, hfirst, hsecond] at hf
      cases hf
    · exact atSteps_cons.2 ⟨by rintro ⟨⟩, atSteps_nil _ _⟩
  have hfault : (m.performAll before).step.answer = .error .stackUnderflow := by
    rw [hrun]
    exact (step_eq_error_iff (m := expiring) rfl rfl hret).2 rfl
  obtain ⟨hfull, -, hlate⟩ := play_performAll m .error 4 2
  have hstopped : stopped.timers.delay = 4 := by
    have hops : before ++ [.step] <+: pace 4 2 := prefix_pace (by decide) (by decide)
    have hnext : stopped = expiring.step.next := by
      rw [← hrun]
      exact ((m.ends_play .error 4 2).eq_of_fault hops hclean hfault).1
    rw [hnext, step_of_faultAt rfl rfl (.refused .ret _ hret (.underflow rfl))]
    rfl
  refine ⟨hstopped, ?_, hfull⟩
  have hdelay (t : Timers) : t.left .delay = t.delay := rfl
  have hleft := hlate 1 0 .stackUnderflow (by decide) (by decide) hclean hfault .delay
  rw [hdelay, hdelay, hstopped] at hleft
  exact UInt8.toNat_inj.1 hleft

end Machine

end Chip8
