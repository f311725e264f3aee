import Chip8.Proofs.Execution
import Chip8.Proofs.Restart

namespace Chip8

/-- The return addresses that are open behind an instruction at an address: a call leaves one more,
and a return takes the last. -/
def Instruction.openBehind (frames : List UInt16) (a : UInt16) : Instruction → List UInt16
  | .call _ => frames ++ [a + 2]
  | .ret => frames.dropLast
  | _ => frames

def openBehindAll (frames : List UInt16) (executed : List (UInt16 × Instruction)) : List UInt16 :=
  executed.foldl (fun frames e => e.2.openBehind frames e.1) frames

namespace Instruction

variable {frames : List UInt16} {a : UInt16} {i : Instruction} {n : Nat}

@[simp]
theorem openBehind_call (frames : List UInt16) (a target : UInt16) :
    (call target).openBehind frames a = frames ++ [a + 2] := rfl

@[simp]
theorem openBehind_ret (frames : List UInt16) (a : UInt16) :
    ret.openBehind frames a = frames.dropLast := rfl

theorem take_openBehind (hn : n ≤ frames.length) (hn' : n ≤ (i.openBehind frames a).length) :
    (i.openBehind frames a).take n = frames.take n := by
  cases i with
  | call target => exact List.take_append_of_le_length hn
  | ret =>
      rw [openBehind_ret, List.length_dropLast] at hn'
      rw [openBehind_ret, List.dropLast_eq_take, List.take_take, Nat.min_eq_left hn']
  | _ => rfl

theorem eq_ret_of_openBehind (h : (i.openBehind frames a).length < frames.length) : i = .ret := by
  cases i with
  | ret => rfl
  | call target =>
      rw [openBehind_call, List.length_append] at h
      omega
  | _ => exact absurd h (Nat.lt_irrefl _)

end Instruction

namespace Core

variable {d : Dialect} {s t : Core} {i : Instruction} {a : UInt16}

theorem effect_ret (ht : { s with pc := a }.effect d .ret = .ok t) :
    s.stack.frames = t.stack.frames ++ [t.pc] := by
  obtain ⟨⟨target, stack⟩, hstack, rfl⟩ := map_eq_ok_iff.1 ht
  exact CallStack.frames_pop hstack

theorem effect_frames (ht : { s with pc := a + 2 }.effect d i = .ok t) :
    t.stack.frames = i.openBehind s.stack.frames a := by
  have hstack := effect_stack ht
  cases i with
  | call target => exact CallStack.frames_push hstack
  | ret =>
      obtain ⟨⟨target, stack⟩, hpop, rfl⟩ := map_eq_ok_iff.1 hstack
      rw [Instruction.openBehind_ret, CallStack.frames_pop hpop, List.dropLast_concat]
  | _ => exact congrArg CallStack.frames (Except.ok.inj hstack).symm

end Core

namespace Machine

variable {m : Machine} {op : Operation} {ops : List Operation}
  {done : List (UInt16 × Instruction)}

theorem perform_frames (hb : m.Bounded) (hop : ¬ op.restarts) :
    (m.perform op).next.stack.frames = openBehindAll m.stack.frames (m.executedBy op) := by
  rcases perform_cases hb hop with ⟨i, t, hi, ht, hnext⟩ | ⟨hnone, _, _, _, _, _, hnext⟩
  · rw [hnext, hi]
    exact Core.effect_frames ht
  · rw [hnext, hnone]
    rfl

theorem performAll_frames (hb : m.Bounded) (h : m.stack.frames = openBehindAll [] done) :
    (m.performAll ops).stack.frames = openBehindAll [] (m.journal done ops) := by
  induction ops generalizing m done with
  | nil => exact h
  | cons op ops ih =>
      refine ih (m := (m.perform op).next) (perform_bounded hb op) ?_
      by_cases hop : op.restarts
      · obtain ⟨memory, program, hnext⟩ := perform_restart_next (m := m) hop
        rw [hnext, if_pos hop]
        rfl
      · rw [perform_frames hb hop, if_neg hop, h]
        exact List.foldl_append.symm

theorem take_frames_perform {n : Nat} (hb : m.Bounded) (hop : ¬ op.restarts)
    (hn : n ≤ m.stack.depth) (hn' : n ≤ (m.perform op).next.stack.depth) :
    (m.perform op).next.stack.frames.take n = m.stack.frames.take n := by
  rw [← CallStack.length_frames] at hn hn'
  rw [perform_frames hb hop] at hn' ⊢
  rcases perform_cases hb hop with ⟨i, t, hi, -, -⟩ | ⟨hnone, -⟩
  · rw [hi] at hn' ⊢
    exact Instruction.take_openBehind hn hn'
  · rw [hnone]
    rfl

/-- As long as the stack stays above a depth, nothing happens to the frames below it. -/
theorem take_frames_performAll {n : Nat} (hb : m.Bounded) (hops : ∀ op ∈ ops, ¬ op.restarts)
    (hn : ∀ before, before <+: ops → n ≤ (m.performAll before).stack.depth) :
    (m.performAll ops).stack.frames.take n = m.stack.frames.take n := by
  induction ops generalizing m with
  | nil => rfl
  | cons op ops ih =>
      have hop := hops op List.mem_cons_self
      have hrest : (m.performAll (op :: ops)).stack.frames.take n =
          (m.perform op).next.stack.frames.take n := by
        refine ih (perform_bounded hb op) (fun op h => hops op (List.mem_cons_of_mem _ h)) ?_
        intro before hbefore
        exact hn (op :: before) ((List.prefix_cons_inj op).2 hbefore)
      rw [hrest]
      exact take_frames_perform hb hop (hn [] List.nil_prefix)
        (hn [op] ((List.prefix_cons_inj op).2 List.nil_prefix))

/-- The return that first leads back to the depth of a call goes behind the call. -/
theorem return_of_call {a target : UInt16} (hb : m.Bounded)
    (hcall : m.executes = some (a, .call target)) (hops : ∀ op ∈ ops, ¬ op.restarts)
    (hdeep : ∀ before, before <+: ops →
      m.stack.depth < (m.step.next.performAll before).stack.depth) :
    let n := m.step.next.performAll ops
    n.step.next.stack.depth = m.stack.depth →
      n.executes = some (n.pc, .ret) ∧ n.step.next.pc = a + 2 ∧
        n.step.next.stack.frames = m.stack.frames := by
  intro n hback
  have hframes : m.step.next.stack.frames = m.stack.frames ++ [a + 2] := by
    have hop : ¬ Operation.step.restarts := Bool.false_ne_true
    have h := perform_frames hb hop
    rwa [executedBy, hcall] at h
  have hlen : (m.stack.frames ++ [a + 2]).length = m.stack.depth + 1 := by
    rw [List.length_append, CallStack.length_frames, List.length_singleton]
  -- The depth never fell below that of the call, so its return address is still in place.
  have htake : n.stack.frames.take (m.stack.depth + 1) = m.stack.frames ++ [a + 2] := by
    have h := take_frames_performAll (perform_bounded hb .step) hops hdeep
    rwa [perform_step_next, hframes, List.take_of_length_le (Nat.le_of_eq hlen)] at h
  have hdepth : m.stack.depth < n.stack.depth := hdeep ops (List.prefix_refl ops)
  have hn : n.Bounded := performAll_of_bounded (perform_bounded hb .step) ops
  rcases step_cases hn with ⟨i, t, hi, ht, hnext⟩ | ⟨-, registers, pc, state, hnext⟩
  · have hshorter : (i.openBehind n.stack.frames n.pc).length < n.stack.frames.length := by
      rw [← Core.effect_frames ht, CallStack.length_frames, CallStack.length_frames]
      rw [hnext] at hback
      exact hback ▸ hdepth
    obtain rfl := Instruction.eq_ret_of_openBehind hshorter
    have hpop : n.stack.frames = t.stack.frames ++ [t.pc] := Core.effect_ret ht
    have hall : n.stack.frames.length ≤ m.stack.depth + 1 := by
      rw [hpop, List.length_append, CallStack.length_frames, List.length_singleton]
      rw [hnext] at hback
      exact Nat.le_of_eq (congrArg (· + 1) hback)
    rw [List.take_of_length_le hall, hpop] at htake
    obtain ⟨hrest, hlast⟩ := List.append_inj' htake rfl
    rw [hnext]
    exact ⟨hi, List.singleton_inj.1 hlast, hrest⟩
  · rw [hnext] at hback
    exact absurd hdepth (Nat.not_lt_of_le (Nat.le_of_eq hback))

/-- The stack holds the return addresses of the calls that are unmatched in what has been executed
since the program began. A return leads back to its call, and a call or a return fails just where
there is no room or no call. -/
theorem calls_matched (config : Config) (host : Random.Source) (history : List Operation) :
    let m := (powerOn config host).performAll history
    let unmatched := openBehindAll [] ((powerOn config host).journal [] history)
    m.stack.frames = unmatched ∧ unmatched.length ≤ 16 ∧
    (∀ (a target : UInt16) (ops : List Operation), m.executes = some (a, .call target) →
      (∀ op ∈ ops, ¬ op.restarts) →
      (∀ before, before <+: ops →
        m.stack.depth < (m.step.next.performAll before).stack.depth) →
      let n := m.step.next.performAll ops
      n.step.next.stack.depth = m.stack.depth →
        n.executes = some (n.pc, .ret) ∧ n.step.next.pc = a + 2 ∧
          n.step.next.stack.frames = m.stack.frames) ∧
    (m.isLoaded → m.state = .running → ∀ f : Fault,
      (∀ target, m.instructionAt m.pc.toNat = some (.call target) →
        (m.step.answer = .error f ↔ unmatched.length = 16 ∧ f = .stackOverflow target)) ∧
      (m.instructionAt m.pc.toNat = some .ret →
        (m.step.answer = .error f ↔ unmatched = [] ∧ f = .stackUnderflow))) := by
  intro m unmatched
  have hb : m.Bounded := (invariant_bounded config.dialect).performAll host history
  have hframes : m.stack.frames = unmatched :=
    performAll_frames (Core.bounded_fresh _ _) CallStack.frames_empty
  have hlen : unmatched.length = m.stack.depth := by
    rw [← hframes, CallStack.length_frames]
  refine ⟨hframes, hlen ▸ m.stack.depth_le, ?_, ?_⟩
  · intro a target ops hcall hops hdeep
    exact return_of_call hb hcall hops hdeep
  · intro hm hs f
    constructor
    · intro target hi
      rw [step_eq_error_iff hm hs hi, Core.effect, map_eq_error_iff, CallStack.push_eq_error_iff,
        hlen]
    · intro hi
      rw [step_eq_error_iff hm hs hi, Core.effect, map_eq_error_iff, CallStack.pop_eq_error_iff,
        ← List.length_eq_zero_iff, hlen]

def nestedCalls : Array UInt8 :=
  -- A routine at `0x204` that calls another one at `0x208`.
  #[0x22, 0x04, 0x00, 0xE0, 0x22, 0x08, 0x00, 0xEE, 0x00, 0xEE]

def nested : Machine := fresh {} (.ofSeed 0) (some nestedCalls)

def nestedAt (pc inner : UInt16) (depth : Nat) (h : depth ≤ 16) : Machine :=
  { nested with
    pc, stack := ⟨#v[0x202, inner, 0, 0, 0, 0, 0, 0, 0, 0, 0, 0, 0, 0, 0, 0], depth, h⟩ }

theorem nested_instructionAt : nested.instructionAt 0x200 = some (.call 0x204) ∧
    nested.instructionAt 0x204 = some (.call 0x208) ∧ nested.instructionAt 0x206 = some .ret ∧
    nested.instructionAt 0x208 = some .ret := by
  have h (k : Nat) (hk : k < 0xDFF) := instructionAt_fresh {} (.ofSeed 0) nestedCalls hk
  exact ⟨(h 0 (by decide)).trans (by decide), (h 4 (by decide)).trans (by decide),
    (h 6 (by decide)).trans (by decide), (h 8 (by decide)).trans (by decide)⟩

theorem nested_run : nested.step.next = nestedAt 0x204 0 1 (by decide) ∧
    (nestedAt 0x204 0 1 (by decide)).step.next = nestedAt 0x208 0x206 2 (by decide) ∧
    (nestedAt 0x208 0x206 2 (by decide)).step.next = nestedAt 0x206 0x206 1 (by decide) ∧
    (nestedAt 0x206 0x206 1 (by decide)).step.next = nestedAt 0x202 0x206 0 (by decide) := by
  obtain ⟨h0, h4, h6, h8⟩ := nested_instructionAt
  refine ⟨?_, ?_, ?_, ?_⟩
  · rw [step_of_effect (m := nested) rfl rfl h0 rfl]
    rfl
  · rw [step_of_effect (m := nestedAt 0x204 0 1 _) rfl rfl h4 rfl]
    rfl
  · rw [step_of_effect (m := nestedAt 0x208 0x206 2 _) rfl rfl h8 rfl]
    rfl
  · rw [step_of_effect (m := nestedAt 0x206 0x206 1 _) rfl rfl h6 rfl]
    rfl

theorem calls_matched_nested :
    let m := (powerOn {} (.ofSeed 0)).performAll [.load nestedCalls]
    let n := m.step.next.performAll [.step, .tick, .step]
    let k := (powerOn {} (.ofSeed 0)).performAll [.load #[0x00, 0xEE]]
    (m.executes = some (0x200, .call 0x204) ∧ n.executes = some (n.pc, .ret) ∧
      n.step.next.pc = 0x200 + 2 ∧ n.step.next.stack.frames = m.stack.frames) ∧
    k.step.answer = .error .stackUnderflow := by
  have hload : (powerOn {} (.ofSeed 0)).performAll [.load nestedCalls] = nested :=
    performAll_load {} (.ofSeed 0) (by decide)
  obtain ⟨-, -, hmatched, -⟩ := calls_matched {} (.ofSeed 0) [.load nestedCalls]
  obtain ⟨hcall, hinner, hret, hback⟩ := nested_run
  have hcalls : nested.executes = some (0x200, .call 0x204) :=
    executes_of_effect rfl rfl nested_instructionAt.1 rfl
  have hentered : nested.step.next.performAll [.step] = nestedAt 0x208 0x206 2 (by decide) :=
    (congrArg (fun k : Machine => k.step.next) hcall).trans hinner
  have hticked : nested.step.next.performAll [.step, .tick] = nestedAt 0x208 0x206 2 (by decide) :=
    congrArg tick hentered
  have hreturned : nested.step.next.performAll [.step, .tick, .step] =
      nestedAt 0x206 0x206 1 (by decide) :=
    (congrArg (fun k : Machine => k.step.next) hticked).trans hret
  have hdeep : ∀ k ≤ 3, 0 < (nested.step.next.performAll
      ([.step, .tick, .step].take k)).stack.depth := by
    intro k hk
    match k, hk with
    | 0, _ =>
        rw [hcall]
        exact Nat.one_pos
    | 1, _ =>
        rw [List.take_succ_cons, List.take_zero, hentered]
        exact Nat.two_pos
    | 2, _ =>
        rw [List.take_succ_cons, List.take_succ_cons, List.take_zero, hticked]
        exact Nat.two_pos
    | 3, _ =>
        rw [List.take_of_length_le (by decide), hreturned]
        exact Nat.one_pos
  have hunderflow : (fresh {} (.ofSeed 0) (some #[0x00, 0xEE])).step.answer =
      .error .stackUnderflow := by
    obtain ⟨-, -, -, hfails⟩ := calls_matched {} (.ofSeed 0) [.load #[0x00, 0xEE]]
    rw [performAll_load {} (.ofSeed 0) (by decide)] at hfails
    have hi := instructionAt_fresh {} (.ofSeed 0) #[0x00, 0xEE] (k := 0) (by decide)
    exact ((hfails rfl rfl .stackUnderflow).2 (hi.trans (by decide))).2 ⟨rfl, rfl⟩
  dsimp only
  rw [performAll_load {} (.ofSeed 0) (p := #[0x00, 0xEE]) (by decide)]
  refine ⟨?_, hunderflow⟩
  rw [hload] at hmatched ⊢
  refine ⟨hcalls, hmatched 0x200 0x204 [.step, .tick, .step] hcalls (by decide) ?_ ?_⟩
  · intro before hbefore
    rw [List.prefix_iff_eq_take.1 hbefore]
    exact hdeep before.length hbefore.length_le
  · rw [hreturned, hback]
    rfl

end Machine

end Chip8
