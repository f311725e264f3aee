import Chip8.Proofs.KeyWait
import Chip8.Proofs.Pacing
import Chip8.Proofs.Printing
import Chip8.Proofs.Randomness
import Chip8.Proofs.Reserved

namespace Chip8

theorem Keypad.isPressed_foldl_update (k : Keypad) (keys : List UInt8) {j : UInt8}
    (hj : j.toNat < 16) :
    (keys.foldl (fun k key => k.update key true) k).isPressed j ↔ j ∈ keys ∨ k.isPressed j := by
  induction keys generalizing k with
  | nil => simp only [List.foldl_nil, List.not_mem_nil, false_or]
  | cons key keys ih =>
      rw [List.foldl_cons, ih, isPressed_update k key true hj, List.mem_cons, eq_comm (a := j)]
      by_cases h : key = j
      · simp only [h, if_true, or_true, true_or]
      · simp only [h, if_false, false_or]

namespace Machine

variable {m n : Machine} {op : Operation} {ops : List Operation} {fault : Option Fault}

theorem setKey_eq (m : Machine) (key : UInt8) (pressed : Bool) :
    m.setKey key pressed = if key.toNat < 16 then
      .ok { m with keypad := m.keypad.update key pressed } else .error ⟨key⟩ := by
  by_cases h : key.toNat < 16
  · simp only [setKey, Keypad.update, Keypad.set, h, dite_true, if_true]
    rfl
  · simp only [setKey, Keypad.set, h, dite_false, if_false]
    rfl

theorem performAll_setKeys (m : Machine) (keys : List UInt8) :
    m.performAll (keys.map (.setKey · true)) =
      { m with keypad := keys.foldl (fun k key => k.update key true) m.keypad } := by
  induction keys generalizing m with
  | nil => rfl
  | cons key keys ih =>
      rw [List.map_cons, performAll_cons, perform_setKey, ih]
      rfl

theorem step_eq_error_iff_haltReason {f : Fault} (hm : m.isLoaded) :
    m.step.answer = .error f ↔ m.step.next.haltReason = some f := by
  rw [haltReason_eq_some_iff, step_of_isLoaded hm]
  exact Core.step_answer_eq_error_iff

theorem perform_isLoaded (hm : m.isLoaded) (hop : ¬ op.restarts) :
    (m.perform op).next.isLoaded := by
  rw [isLoaded, perform_program hop]
  exact hm

theorem Clean.haltReason (h : m.Clean ops) (hops : ∀ op ∈ ops, ¬ op.restarts) (hm : m.isLoaded)
    (hs : m.haltReason = none) :
    (m.performAll ops).isLoaded ∧ (m.performAll ops).haltReason = none := by
  induction ops generalizing m with
  | nil => exact ⟨hm, hs⟩
  | cons op ops ih =>
      obtain ⟨hop, hrest⟩ := List.forall_mem_cons.1 hops
      obtain ⟨hfirst, hlater⟩ := atSteps_cons.1 h
      apply ih hlater hrest (perform_isLoaded hm hop)
      by_cases hstep : op = .step
      · subst hstep
        rw [perform_step_next, Option.eq_none_iff_forall_ne_some]
        intro f hf
        exact hfirst rfl f ((step_eq_error_iff_haltReason hm).2 hf)
      · obtain ⟨timers, keypad, hnext⟩ := perform_event_next (m := m) hop hstep
        rw [hnext]
        exact hs

/-- The fault that ends a run is the one that the machine has halted with. -/
theorem Ends.haltReason (h : Ends m ops n fault) (hops : ∀ op ∈ ops, ¬ op.restarts)
    (hm : m.isLoaded) (hs : m.haltReason = none) : n.haltReason = fault := by
  cases h with
  | whole hclean => exact (hclean.haltReason hops hm hs).2
  | short before f hpre hclean hf =>
      have hbefore : before <+: ops := (List.prefix_append before _).trans hpre
      have hloaded := (hclean.haltReason (fun op hop => hops op (hbefore.subset hop)) hm hs).1
      exact (step_eq_error_iff_haltReason hloaded).1 hf

theorem play_withRandom {frames cycles : Nat}
    (h : m.AtSteps Determined (Operation.pace frames cycles)) (listener : Level)
    (r : Random.Source) : ((m.withRandom r).play listener frames cycles).machine =
      (m.play listener frames cycles).machine.withRandom r := by
  apply ((ends_play (m.withRandom r) listener frames cycles).unique _).1
  · exact (m.play listener frames cycles).fault
  · apply (m.ends_play listener frames cycles).follow (fun n op hop hn => ?_) h
    exact withRandom_follows (Operation.not_restarts_of_mem_pace hop) hn r

end Machine

namespace CommandLine

open Machine Operation

theorem holdKeys_eq (m : Machine) (keys : List UInt8) :
    holdKeys m keys = match keys.find? (15 < ·) with
      | some key => .error ⟨key⟩
      | none => .ok (m.performAll (keys.map (.setKey · true))) := by
  induction keys generalizing m with
  | nil => rfl
  | cons key keys ih =>
      rw [holdKeys, setKey_eq, List.find?_cons]
      by_cases h : key.toNat < 16
      · have hkey : ¬ 15 < key := by
          rw [UInt8.lt_iff_toNat_lt]
          exact Nat.not_lt_of_le (Nat.le_of_lt_succ h)
        simp only [h, hkey, if_true, decide_false, ih]
        rw [List.map_cons, performAll_cons, perform_setKey]
      · have hkey : 15 < key := by
          rw [UInt8.lt_iff_toNat_lt]
          exact Nat.lt_of_succ_le (Nat.le_of_not_lt h)
        simp only [h, hkey, if_false, decide_true]

/-- The machine before the first frame. -/
def Options.ready (o : Options) (p : Array UInt8) (host : Random.Source) : Machine :=
  (powerOn { dialect := o.dialect, seed := o.seed } host).performAll
    (.load p :: o.keys.map (.setKey · true))

variable {o : Options} {p : Array UInt8} {host : Random.Source}

theorem ready_eq (o : Options) (h : p.size ≤ 0xE00) (host : Random.Source) :
    o.ready p host = { fresh { dialect := o.dialect, seed := o.seed } host (some p) with
      keypad := o.keys.foldl (fun k key => k.update key true) .released } := by
  rw [Options.ready, performAll_load_cons _ _ h, performAll_setKeys]
  rfl

theorem mem_held_ready (h : p.size ≤ 0xE00) (hkeys : ∀ key ∈ o.keys, key ≤ 15) (key : UInt8) :
    key ∈ (o.ready p host).keypad.held ↔ key ∈ o.keys := by
  have hreleased : ¬ Keypad.released.isPressed key := by
    simp [Keypad.isPressed, pick, Keypad.released]
  rw [ready_eq o h, Keypad.mem_held]
  constructor
  · rintro ⟨hlt, hpressed⟩
    exact ((Keypad.isPressed_foldl_update _ _ hlt).1 hpressed).resolve_right hreleased
  · intro hkey
    have hlt : key.toNat < 16 := Nat.lt_succ_of_le (UInt8.le_iff_toNat_le.1 (hkeys key hkey))
    exact ⟨hlt, (Keypad.isPressed_foldl_update _ _ hlt).2 (.inl hkey)⟩

theorem run_of_lt_size (hd : ¬ o.disassemble) (h : 0xE00 < p.size) :
    (run o p host).output = "" ∧
      (run o p host).failure = some (.load (.tooLarge p.size 0xE00)) := by
  simp only [run, hd, Bool.false_eq_true, if_false, load_eq, if_neg (Nat.not_le_of_lt h), and_self]

theorem run_of_size_le (hd : ¬ o.disassemble) (h : p.size ≤ 0xE00) (host : Random.Source) :
    ∃ log, run o p host = match o.keys.find? (15 < ·) with
      | some key => { output := "", failure := some (.key ⟨key⟩), log }
      | none => runLoaded o (o.ready p host) log := by
  have hnext : ((powerOn { dialect := o.dialect, seed := o.seed } host).load p).next =
      fresh { dialect := o.dialect, seed := o.seed } host (some p) :=
    (perform_load_next _ p).symm.trans (performAll_load _ host h)
  have hanswer : ((powerOn { dialect := o.dialect, seed := o.seed } host).load p).answer =
      .ok () := by
    rw [load_eq, if_pos h]
  rw [Options.ready, performAll_load_cons _ _ h, ← hnext]
  simp only [run, hd, Bool.false_eq_true, if_false]
  generalize (powerOn { dialect := o.dialect, seed := o.seed } host).load p = t at hanswer ⊢
  refine ⟨(o.listener.heard t.log).toArray, ?_⟩
  simp only [hanswer, holdKeys_eq]
  cases o.keys.find? (15 < ·) with
  | some key => rfl
  | none => rfl

/-- The host has no say in a run that has a seed or asks for no random byte. -/
theorem runLoaded_host {log log' : Array Record} (h : p.size ≤ 0xE00)
    (hrandom : o.seed = none →
      (o.ready p host).AtSteps Determined (pace o.frames o.cyclesPerFrame))
    (other : Random.Source) :
    (runLoaded o (o.ready p other) log').output = (runLoaded o (o.ready p host) log).output ∧
      (runLoaded o (o.ready p other) log').failure =
        (runLoaded o (o.ready p host) log).failure := by
  cases hseed : o.seed with
  | some seed =>
      have hready : o.ready p other = o.ready p host := by
        rw [ready_eq o h, ready_eq o h, fresh_seeded hseed other host]
      rw [hready]
      exact ⟨rfl, rfl⟩
  | none =>
      have hready : o.ready p other = (o.ready p host).withRandom other := by
        rw [ready_eq o h, ready_eq o h]
        simp only [fresh, hseed]
        rfl
      simp only [runLoaded, hready, play_withRandom (hrandom hseed)]
      exact ⟨rfl, rfl⟩

/-- The outcome of a run, in the order in which it is decided: the listing, a program that is too
large, a key that there is not, and then the picture and the status line that the machine ends with.
The run fails with the fault of its first failing step, and well just if none fails. -/
theorem run_outcome (o : Options) (p : Array UInt8) (host : Random.Source) :
    let report := run o p host
    let ready := o.ready p host
    let ops := pace o.frames o.cyclesPerFrame
    (o.disassemble →
      report.output = String.join ((listing p 0x200).map fun line => line.text ++ "\n") ∧
        report.output.toList.splitOn '\n' =
          (listing p 0x200).map (fun line => line.text.toList) ++ [[]] ∧
        report.failure = none) ∧
    (¬ o.disassemble → 0xE00 < p.size →
      report.output = "" ∧ report.failure = some (.load (.tooLarge p.size 0xE00))) ∧
    (¬ o.disassemble → p.size ≤ 0xE00 → ∀ key, o.keys.find? (15 < ·) = some key →
      report.output = "" ∧ report.failure = some (.key ⟨key⟩)) ∧
    (¬ o.disassemble → p.size ≤ 0xE00 → (∀ key ∈ o.keys, key ≤ 15) →
      (∀ key, key ∈ ready.keypad.held ↔ key ∈ o.keys) ∧
      (∃ final fault, Ends ready ops final fault ∧
        report.output = final.screen.text ++ statusLine final ∧ Shows final report.output ∧
        report.failure = fault.map .fault ∧
        (report.exitCode = 0 ↔ ready.Clean ops) ∧
        (report.exitCode = 0 ↔ ¬ "Halted".toList <:+: (statusLine final).toList)) ∧
      ((o.seed = none → ready.AtSteps Determined ops) → ∀ other,
        (run o p other).output = report.output ∧ (run o p other).failure = report.failure)) := by
  intro report ready ops
  refine ⟨?_, fun hd h => run_of_lt_size hd h, ?_, ?_⟩
  · intro hd
    have hrun : report = { output := listingText p } := if_pos hd
    rw [hrun]
    exact ⟨rfl, splitOn_listingText p, rfl⟩
  · intro hd h key hkey
    obtain ⟨log, hrun⟩ := run_of_size_le hd h host
    rw [hkey] at hrun
    simp only [report, hrun, and_self]
  · intro hd h hkeys
    have hnone : o.keys.find? (15 < ·) = none := by
      rw [List.find?_eq_none]
      intro key hkey
      simpa using hkeys key hkey
    have hrun (host : Random.Source) : ∃ log, run o p host = runLoaded o (o.ready p host) log := by
      obtain ⟨log, hrun⟩ := run_of_size_le hd h host
      exact ⟨log, by rw [hrun, hnone]⟩
    obtain ⟨log, hreport⟩ : ∃ log, report = runLoaded o ready log := hrun host
    refine ⟨mem_held_ready h hkeys, ?_, ?_⟩
    · have hends := ready.ends_play o.listener o.frames o.cyclesPerFrame
      -- The exit code is read off the machine at the end, not off the step that failed.
      have hhalt := hends.haltReason (fun op => not_restarts_of_mem_pace)
        (by simp only [ready, ready_eq o h]; rfl) (by simp only [ready, ready_eq o h]; rfl)
      have hexit : report.exitCode = 0 ↔
          (ready.play o.listener o.frames o.cyclesPerFrame).fault = none := by
        rw [hreport, Report.exitCode, runLoaded, hhalt]
        cases (ready.play o.listener o.frames o.cyclesPerFrame).fault with
        | none => simp
        | some f => simp
      refine ⟨_, _, hends, by rw [hreport, runLoaded], ?_, by rw [hreport, runLoaded, hhalt], ?_, ?_⟩
      · rw [hreport]
        exact shows_output _
      · rw [hexit, hends.clean_iff]
      · rw [hexit, halted_infix_statusLine, hhalt, Option.not_isSome_iff_eq_none]
    · intro hrandom other
      obtain ⟨log', hother⟩ := hrun other
      rw [hother, hreport]
      exact runLoaded_host h hrandom other

def zeroReturning : Array UInt8 :=
  -- Draws the glyph of 0 and returns without a call.
  #[0xD0, 0x05, 0x00, 0xEE]

def returningWith (keys : List UInt8) : Options where
  frames := 2
  cyclesPerFrame := 3
  dialect := .cosmacVip
  seed := none
  keys
  verbosity := 0
  disassemble := false
  input := "zero.ch8"

def zeroReady (keypad : Keypad) : Machine :=
  { fresh {} (.ofSeed 0) (some zeroReturning) with keypad }

def zeroDrawn (keypad : Keypad) : Machine :=
  { zeroReady keypad with
    toCore := Core.drawn { (zeroReady keypad).toCore with pc := 0x202 } 0 0 (glyph 0) }

theorem zeroReady_step (keypad : Keypad) : (zeroReady keypad).step =
    ⟨.ok .advanced, zeroDrawn keypad, [.executing 0x200 (.draw 0 0 5)]⟩ := by
  have hi : (zeroReady keypad).instructionAt 0x200 = some (.draw 0 0 5) :=
    (instructionAt_fresh {} (.ofSeed 0) zeroReturning (k := 0) (by decide)).trans (by decide)
  have hm : (fresh {} (.ofSeed 0) (some zeroReturning)).memory.Intact := by
    rw [← performAll_load {} (.ofSeed 0) (by decide)]
    exact performAll_intact {} (.ofSeed 0) _
  exact step_of_effect (m := zeroReady keypad) rfl rfl hi
    (Core.effect_drawGlyph (s := { (zeroReady keypad).toCore with pc := 0x202 }) hm rfl _ 0 0)

theorem zeroDrawn_step (keypad : Keypad) :
    (zeroDrawn keypad).step.answer = .error .stackUnderflow ∧ (zeroDrawn keypad).step.next =
      { zeroDrawn keypad with pc := 0x204, state := .halted .stackUnderflow } := by
  have hi : (zeroDrawn keypad).instructionAt 0x202 = some .ret := by
    have h := instructionAt_fresh {} (.ofSeed 0) zeroReturning (k := 2) (by decide)
    rw [Core.instructionAt] at h ⊢
    exact h.trans (by decide)
  have hfault : Core.FaultAt .cosmacVip (zeroDrawn keypad).toCore 0x202 .stackUnderflow :=
    .refused .ret _ hi (.underflow rfl)
  exact ⟨(step_fails_iff (m := zeroDrawn keypad) rfl rfl).2 hfault,
    step_of_faultAt (m := zeroDrawn keypad) rfl rfl hfault⟩

theorem zeroDrawn_row (keypad : Keypad) {y : Nat} (hy : y < 32) :
    (zeroDrawn keypad).screen.row y = (List.range 64).map fun x =>
      if y < 5 ∧ x < 8 ∧ Screen.inked (glyph 0) x y then '#' else ' ' := by
  have hglyph := Core.drawsGlyph_drawn { (zeroReady keypad).toCore with pc := 0x202 } 0 0 0
  apply List.map_congr_left
  intro x hx
  have hx : x < 64 := List.mem_range.1 hx
  have hseen : (zeroDrawn keypad).screen.get x y ↔ Screen.distance 32 0 y < 5 ∧
      Screen.distance 64 0 x < 8 ∧
        Screen.inked (glyph 0) (Screen.distance 64 0 x) (Screen.distance 32 0 y) :=
    (hglyph.of_blank rfl).2 ⟨x, hx⟩ ⟨y, hy⟩
  rw [Screen.distance_zero hx, Screen.distance_zero hy] at hseen
  exact if_congr hseen rfl rfl

theorem zeroDrawn_status (keypad : Keypad) :
    status { zeroDrawn keypad with pc := 0x204, state := .halted .stackUnderflow } =
      "status: Halted, pc: 0x204, sound: off" := by
  have htimers : (zeroDrawn keypad).timers.isSounding = false := rfl
  simp only [status, RunState.word, htimers]
  decide

theorem run_outcome_returning :
    let report := run (returningWith [5]) zeroReturning (.ofSeed 0)
    report.failure = some (.fault .stackUnderflow) ∧ report.exitCode ≠ 0 ∧
      report.output.toList.splitOn '\n' =
        (["####", "#  #", "#  #", "#  #", "####"].map fun row =>
          row.toList ++ List.replicate 60 ' ') ++
        List.replicate 27 (List.replicate 64 ' ') ++
        ["status: Halted, pc: 0x204, sound: off".toList, []] ∧
      (run (returningWith [5, 16, 17]) zeroReturning (.ofSeed 0)).failure =
        some (.key ⟨16⟩) := by
  intro report
  let keypad := Keypad.released.update 5 true
  have hkeys : ∀ key ∈ (returningWith [5]).keys, key ≤ 15 := List.forall_mem_singleton.2 (by decide)
  have hready : (returningWith [5]).ready zeroReturning (.ofSeed 0) = zeroReady keypad :=
    ready_eq (returningWith [5]) (by decide) (.ofSeed 0)
  have houtcome := (run_outcome (returningWith [5]) zeroReturning (.ofSeed 0)).2.2.2 (by decide)
    (by decide) hkeys
  rw [hready] at houtcome
  obtain ⟨-, ⟨final, fault, hends, houtput, -, hfailure, hexit, -⟩, -⟩ := houtcome
  have hnext : (zeroReady keypad).performAll [.step] = zeroDrawn keypad :=
    congrArg (·.next) (zeroReady_step keypad)
  have hclean : (zeroReady keypad).Clean [.step] := by
    refine atSteps_cons.2 ⟨?_, atSteps_nil _ _⟩
    rw [zeroReady_step]
    rintro - f ⟨⟩
  have hops : [.step] ++ [.step] <+: pace 2 3 := ⟨_, rfl⟩
  obtain ⟨hanswer, hhalted⟩ := zeroDrawn_step keypad
  rw [← hnext] at hanswer hhalted
  obtain ⟨hfinal, hfault⟩ := hends.eq_of_fault hops hclean hanswer
  refine ⟨?_, ?_, ?_, ?_⟩
  · rw [hfault] at hfailure
    exact hfailure
  · intro hzero
    exact hexit.1 hzero [.step] hops _ hanswer
  · rw [houtput, splitOn_output, hfinal, hhalted, hnext]
    have hrows : ((List.range 32).map fun y => (List.range 64).map fun x =>
          if y < 5 ∧ x < 8 ∧ Screen.inked (glyph 0) x y then '#' else ' ') =
        (["####", "#  #", "#  #", "#  #", "####"].map fun row =>
          row.toList ++ List.replicate 60 ' ') ++
        List.replicate 27 (List.replicate 64 ' ') := by decide +kernel
    have hpicture := List.map_congr_left fun y hy =>
      zeroDrawn_row keypad (List.mem_range.1 hy)
    dsimp only
    rw [zeroDrawn_status, ← hrows, ← hpicture]
  · exact ((run_outcome (returningWith [5, 16, 17]) zeroReturning (.ofSeed 0)).2.2.1 (by decide)
      (by decide) 16 (by decide)).2

end CommandLine

end Chip8
