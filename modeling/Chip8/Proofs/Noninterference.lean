import Chip8.Proofs.Execution

namespace Chip8

inductive Device
  | timers
  | keypad
  | screen

namespace Operation

variable {D : Device → Bool} {op : Operation}

def device? : Operation → Option Device
  | .tick => some .timers
  | .setKey .. => some .keypad
  | .load _ | .reset | .step => none

def others (D : Device → Bool) (ops : List Operation) : List Operation :=
  ops.filter fun op => !op.device?.any D

theorem others_cons_of_device (h : op.device?.any D) (ops : List Operation) :
    others D (op :: ops) = others D ops :=
  List.filter_cons_of_neg (by simp only [h, Bool.not_true, Bool.false_eq_true, not_false_eq_true])

theorem others_cons (h : ¬ op.device?.any D) (ops : List Operation) :
    others D (op :: ops) = op :: others D ops :=
  List.filter_cons_of_pos (by simp only [h, Bool.not_false])

end Operation

def Condition.reads : Condition → Option Device
  | .keyDown _ | .keyUp _ => some .keypad
  | .holds .. | .lacks .. | .equal .. | .differ .. => none

/-- The device that an instruction learns anything from. -/
def Instruction.reads : Instruction → Option Device
  | .readDelay _ => some .timers
  | .skip c => c.reads
  | .draw .. => some .screen
  | _ => none

theorem eq_false_of_not_any {D : Device → Bool} {r : Option Device} {device : Device}
    (h : ¬ r.any D) (hr : r = some device) : D device = false := by
  subst hr
  exact eq_false_of_ne_true h

namespace Core

variable {D : Device → Bool} {d : Dialect} {s t : Core} {i : Instruction} {f : Fault}

/-- A core with some of its devices put back to where they start. -/
def without (D : Device → Bool) (s : Core) : Core :=
  { s with
    timers := if D .timers then {} else s.timers
    keypad := if D .keypad then .released else s.keypad
    screen := if D .screen then .blank else s.screen }

theorem without_timers (h : D .timers = false) : (s.without D).timers = s.timers := by
  simp only [without, h, Bool.false_eq_true, if_false]

theorem without_keypad (h : D .keypad = false) : (s.without D).keypad = s.keypad := by
  simp only [without, h, Bool.false_eq_true, if_false]

theorem without_screen (h : D .screen = false) : (s.without D).screen = s.screen := by
  simp only [without, h, Bool.false_eq_true, if_false]

theorem without_congr
    (h : s = { t with timers := s.timers, keypad := s.keypad, screen := s.screen })
    (htimers : D .timers = false → s.timers = t.timers)
    (hkeypad : D .keypad = false → s.keypad = t.keypad)
    (hscreen : D .screen = false → s.screen = t.screen) : s.without D = t.without D := by
  have hdevice {α : Type} {device : Device} {a b c : α} (h : D device = false → b = c) :
      (if D device then a else b) = if D device then a else c := by
    cases hD : D device with
    | true => rfl
    | false => exact h hD
  rw [without, without, hdevice htimers, hdevice hkeypad, hdevice hscreen, h]

theorem without_changed (s : Core) (registers : Registers) (index pc : UInt16) (stack : CallStack)
    (state : RunState) (random : Random.Source) (memory : Memory) :
    without D { s.without D with registers, index, pc, stack, state, random, memory } =
      without D { s with registers, index, pc, stack, state, random, memory } :=
  without_congr rfl without_timers without_keypad without_screen

theorem without_without (s : Core) : (s.without D).without D = s.without D :=
  without_congr rfl without_timers without_keypad without_screen

theorem without_of_timers (h : D .timers) (timers : Timers) :
    without D { s with timers } = s.without D := by
  refine without_congr rfl (fun hD => ?_) (fun _ => rfl) fun _ => rfl
  cases hD.symm.trans h

theorem without_of_keypad (h : D .keypad) (keypad : Keypad) :
    without D { s with keypad } = s.without D := by
  refine without_congr rfl (fun _ => rfl) (fun hD => ?_) fun _ => rfl
  cases hD.symm.trans h

theorem without_of_screen (h : D .screen) (screen : Screen) :
    without D { s with screen } = s.without D := by
  refine without_congr rfl (fun _ => rfl) (fun _ => rfl) fun hD => ?_
  cases hD.symm.trans h

theorem Refuses.without_iff : Refuses d (s.without D) i f ↔ Refuses d s i f :=
  ⟨fun h => h.transfer s, fun h => h.transfer (s.without D)⟩

theorem holdsOn_without {c : Condition} (h : ¬ c.reads.any D) :
    c.holdsOn (s.without D) = c.holdsOn s := by
  cases c with
  | holds | lacks | equal | differ => rfl
  | keyDown x | keyUp x =>
      simp only [Condition.holdsOn, without_keypad (eq_false_of_not_any h rfl)]
      rfl

theorem moveIndex_without (s : Core) (x : UInt8) :
    ((s.without D).moveIndex d x).without D = (s.moveIndex d x).without D := by
  simp only [moveIndex]
  split
  · exact without_changed ..
  · exact without_changed ..

theorem effect_without (h : ¬ i.reads.any D) (ht : s.effect d i = .ok t) :
    ∃ u, (s.without D).effect d i = .ok u ∧ u.without D = t.without D := by
  cases i with
  | sys | jump | setByte | addByte | combine | setIndex | random | awaitKey | pointGlyph =>
      cases ht
      exact ⟨_, rfl, without_changed ..⟩
  | clearScreen =>
      cases ht
      exact ⟨_, rfl, without_congr rfl without_timers without_keypad fun _ => rfl⟩
  | setDelay x | setSound x =>
      cases ht
      refine ⟨_, rfl, without_congr rfl (fun hD => ?_) without_keypad without_screen⟩
      simp only [without_timers hD]
      rfl
  | readDelay x =>
      cases ht
      refine ⟨_, rfl, ?_⟩
      rw [without_timers (eq_false_of_not_any h rfl)]
      exact without_changed ..
  | skip c =>
      cases ht
      refine ⟨_, rfl, ?_⟩
      rw [holdsOn_without h]
      cases c.holdsOn s with
      | false | true => exact without_changed ..
  | addIndex x =>
      cases ht
      refine ⟨_, rfl, ?_⟩
      simp only [addIndex]
      split
      · exact without_changed ..
      · exact without_changed ..
  | jumpOffset a =>
      by_cases htarget : s.jumpTarget d a < 0x1000
      · cases (if_pos htarget).symm.trans ht
        exact ⟨_, if_pos htarget, without_changed ..⟩
      · cases (if_neg htarget).symm.trans ht
  | ret | call | storeDecimal =>
      obtain ⟨a, ha, rfl⟩ := map_eq_ok_iff.1 ht
      exact ⟨_, map_eq_ok_iff.2 ⟨a, ha, rfl⟩, without_changed ..⟩
  | draw x y height =>
      have hscreen := without_screen (s := s) (eq_false_of_not_any h rfl)
      obtain ⟨sprite, hsprite, rfl⟩ := map_eq_ok_iff.1 ht
      refine ⟨_, map_eq_ok_iff.2 ⟨sprite, hsprite, rfl⟩, ?_⟩
      rw [drawn, hscreen]
      exact without_congr rfl without_timers without_keypad fun _ => rfl
  | store x =>
      obtain ⟨memory, hmemory, rfl⟩ := map_eq_ok_iff.1 ht
      exact ⟨_, map_eq_ok_iff.2 ⟨memory, hmemory, rfl⟩, moveIndex_without { s with memory } x⟩
  | load x =>
      obtain ⟨values, hvalues, rfl⟩ := map_eq_ok_iff.1 ht
      refine ⟨_, map_eq_ok_iff.2 ⟨values, hvalues, rfl⟩, ?_⟩
      exact moveIndex_without { s with registers := s.registers.fill 0 values } x

theorem step_without (hs : s.state = .running)
    (h : ∀ i t, s.instructionAt s.pc.toNat = some i →
      { s with pc := s.pc + 2 }.effect d i = .ok t → ¬ i.reads.any D) :
    ((s.without D).step d).answer = (s.step d).answer ∧
      ((s.without D).step d).next.without D = (s.step d).next.without D := by
  have hstep := running_step d hs
  generalize s.step d = r at hstep
  cases hstep with
  | unfetched _ hw =>
      rw [(Steps.unfetched (s := s.without D) hs hw).step_eq]
      exact ⟨rfl, without_changed ..⟩
  | undecoded w _ hw hi =>
      rw [(Steps.undecoded (s := s.without D) w hs hw hi).step_eq]
      exact ⟨rfl, without_changed ..⟩
  | executed i t _ hi ht =>
      obtain ⟨u, hu, hnext⟩ := effect_without (h i t hi ht) ht
      rw [(Steps.executed (s := s.without D) i u hs hi hu).step_eq]
      exact ⟨rfl, hnext⟩
  | faulted i f _ hi hf =>
      -- The instruction may be one that reads a device, but it has failed before it came to that.
      rw [effect_moved_eq_error_iff hi, ← Refuses.without_iff (D := D)] at hf
      have hf := (effect_moved_eq_error_iff (s := s.without D) hi).2 hf
      rw [(Steps.faulted (s := s.without D) i f hs hi hf).step_eq]
      exact ⟨rfl, without_changed ..⟩
  | waiting _ hx | keyed _ _ hx | stopped _ hx => cases hs.symm.trans hx

theorem step_without_of_awaiting {x : UInt8} (hs : s.state = .awaitingKey x)
    (hD : D .keypad = false) :
    ((s.without D).step d).answer = (s.step d).answer ∧
      ((s.without D).step d).next.without D = (s.step d).next.without D := by
  rw [step_of_awaiting hs, step_of_awaiting (s := s.without D) hs, without_keypad hD]
  cases s.keypad.lowest with
  | none => exact ⟨rfl, without_without s⟩
  | some key =>
      by_cases hx : x.toNat < 16
      · simp only [hx, if_true, true_and]
        exact without_changed ..
      · simp only [hx, if_false, true_and]
        exact without_without s

end Core

namespace Machine

variable {D : Device → Bool} {m n : Machine} {op : Operation} {ops ops' : List Operation}

def without (D : Device → Bool) (m : Machine) : Machine :=
  { m with toCore := m.toCore.without D }

theorem without_without (m : Machine) : (m.without D).without D = m.without D :=
  congrArg (fun s => { m with toCore := s }) (Core.without_without m.toCore)

def reads (m : Machine) : Option Device :=
  match m.state with
  | .awaitingKey _ => some .keypad
  | .running | .halted _ => m.executes.bind fun e => e.2.reads

theorem executes_without (m : Machine) : (m.without D).executes = m.executes := by
  apply Option.ext
  rintro ⟨a, i⟩
  have hrefuses (f : Fault) : Core.Refuses (m.without D).config.dialect (m.without D).toCore i f ↔
      Core.Refuses m.config.dialect m.toCore i f :=
    Core.Refuses.without_iff
  simp only [executes_eq_some_iff, hrefuses]
  exact Iff.rfl

theorem reads_without (m : Machine) : (m.without D).reads = m.reads := by
  simp only [reads, executes_without]
  rfl

theorem step_without (h : ¬ m.reads.any D) : (m.without D).step.answer = m.step.answer ∧
    (m.without D).step.next.without D = m.step.next.without D := by
  by_cases hm : m.isLoaded
  · have hcore : ((m.toCore.without D).step m.config.dialect).answer =
          (m.toCore.step m.config.dialect).answer ∧
        ((m.toCore.without D).step m.config.dialect).next.without D =
          (m.toCore.step m.config.dialect).next.without D := by
      cases hs : m.state with
      | running =>
          apply Core.step_without hs
          intro i t hi ht hread
          apply h
          rw [reads, hs, executes_of_effect hm hs hi ht]
          exact hread
      | awaitingKey x =>
          apply Core.step_without_of_awaiting hs
          exact eq_false_of_not_any h (by rw [reads, hs])
      | halted f =>
          rw [(Core.Steps.stopped f hs).step_eq,
            (Core.Steps.stopped (s := m.toCore.without D) f hs).step_eq]
          exact ⟨rfl, Core.without_without m.toCore⟩
    rw [step_of_isLoaded hm, step_of_isLoaded (m := m.without D) hm]
    exact ⟨hcore.1, congrArg (fun s => { m with toCore := s }) hcore.2⟩
  · rw [step_of_not_isLoaded hm, step_of_not_isLoaded (m := m.without D) hm]
    exact ⟨rfl, m.without_without⟩

theorem perform_of_device (h : op.device?.any D) :
    (m.perform op).next.without D = m.without D := by
  cases op with
  | load | reset | step => cases h
  | tick =>
      exact congrArg (fun s => { m with toCore := s }) (Core.without_of_timers h m.timers.tick)
  | setKey key pressed =>
      obtain ⟨keypad, hnext⟩ := m.perform_setKey_next key pressed
      rw [hnext]
      exact congrArg (fun s => { m with toCore := s }) (Core.without_of_keypad h keypad)

theorem reset_without (m : Machine) : (m.without D).reset = m.reset := by
  have hprogram : (m.without D).program = m.program := rfl
  simp only [reset, reload, hprogram]
  split
  · rfl
  · split
    · rfl
    · rfl

theorem perform_without (h : ¬ op.device?.any D) (hread : op = .step → ¬ m.reads.any D) :
    ((m.without D).perform op).answer = (m.perform op).answer ∧
      ((m.without D).perform op).next.without D = (m.perform op).next.without D := by
  cases op with
  | load p =>
      have hload : (m.without D).load p = m.load p := by
        rw [load_eq, load_eq]
        rfl
      simp only [perform, hload, and_self]
  | reset => simp only [perform, reset_without, and_self]
  | step =>
      obtain ⟨hanswer, hnext⟩ := step_without (hread rfl)
      exact ⟨congrArg Answer.stepped hanswer, hnext⟩
  | tick =>
      refine ⟨rfl, congrArg (fun s => { m with toCore := s }) ?_⟩
      exact Core.without_congr rfl (fun hD => congrArg Timers.tick (Core.without_timers hD))
        Core.without_keypad Core.without_screen
  | setKey key pressed =>
      have hkeypad : (m.without D).keypad = m.keypad :=
        Core.without_keypad (eq_false_of_not_any h rfl)
      simp only [perform, setKey, hkeypad]
      cases m.keypad.set key pressed with
      | ok keypad =>
          refine ⟨rfl, congrArg (fun s => { m with toCore := s }) ?_⟩
          exact Core.without_congr rfl Core.without_timers (fun _ => rfl) Core.without_screen
      | error e => exact ⟨rfl, m.without_without⟩

/-- No step in a run reads any of some devices. -/
def Ignores (D : Device → Bool) (m : Machine) : List Operation → Prop
  | [] => True
  | op :: ops => (op = .step → ¬ m.reads.any D) ∧ (m.perform op).next.Ignores D ops

def answers (D : Device → Bool) (m : Machine) : List Operation → List Answer
  | [] => []
  | op :: ops =>
      let rest := (m.perform op).next.answers D ops
      if op.device?.any D then rest else (m.perform op).answer :: rest

theorem reads_agree (h : m.without D = n.without D) : m.reads = n.reads := by
  rw [← m.reads_without (D := D), h, n.reads_without]

theorem perform_agree (h : m.without D = n.without D) (hop : ¬ op.device?.any D)
    (hread : op = .step → ¬ m.reads.any D) :
    (m.perform op).answer = (n.perform op).answer ∧
      (m.perform op).next.without D = (n.perform op).next.without D := by
  obtain ⟨hanswer, hnext⟩ := perform_without hop hread
  obtain ⟨hanswer', hnext'⟩ := perform_without (m := n) hop (reads_agree h ▸ hread)
  rw [← hanswer, ← hnext, ← hanswer', ← hnext', h]
  exact ⟨rfl, rfl⟩

/-- What the host does to devices that a run does not read might as well not have been done. -/
theorem performAll_agree (h : m.without D = n.without D) (ops : List Operation) :
    let rest := Operation.others D ops
    (m.Ignores D ops ↔ n.Ignores D rest) ∧ (m.Ignores D ops →
      m.answers D ops = n.answers D rest ∧
        (m.performAll ops).without D = (n.performAll rest).without D) := by
  dsimp only
  -- Two runs with different events are both laid beside one without any, so that the induction is
  -- over a single list.
  induction ops generalizing m n with
  | nil => exact ⟨Iff.rfl, fun _ => ⟨rfl, h⟩⟩
  | cons op ops ih =>
      by_cases hop : op.device?.any D
      · obtain ⟨hignores, hrun⟩ := ih ((perform_of_device hop).trans h)
        have hstep : op ≠ .step := by
          rintro rfl
          cases hop
        rw [Operation.others_cons_of_device hop, Ignores, answers, if_pos hop, performAll_cons]
        exact ⟨(and_iff_right fun h => absurd h hstep).trans hignores, fun hm => hrun hm.2⟩
      · rw [Operation.others_cons hop, Ignores, Ignores, answers, answers, if_neg hop, if_neg hop,
          performAll_cons, performAll_cons, reads_agree h]
        by_cases hread : op = .step → ¬ n.reads.any D
        · obtain ⟨hanswer, hnext⟩ := perform_agree h hop (reads_agree h ▸ hread)
          obtain ⟨hignores, hrun⟩ := ih hnext
          refine ⟨and_congr_right fun _ => hignores, fun hm => ?_⟩
          obtain ⟨hanswers, hlast⟩ := hrun hm.2
          exact ⟨by rw [hanswer, hanswers], hlast⟩
        · exact ⟨⟨fun hm => absurd hm.1 hread, fun hn => absurd hn.1 hread⟩,
            fun hm => absurd hm.1 hread⟩

def withFlag (m : Machine) (set : Bool) : Machine :=
  { m with registers := m.registers.writeFlag set }

/-- A sprite is drawn no matter what is on the screen, which shows in the flag alone. -/
theorem step_draw {a : UInt16} {x y height : UInt8} (hD : D .screen)
    (h : m.executes = some (a, .draw x y height)) :
    m.step.answer = .ok .advanced ∧ ∀ set, (m.step.next.withFlag set).without D =
      { (m.withFlag set).without D with pc := m.pc + 2 } := by
  obtain ⟨hm, hs, -, hi, hrefuses⟩ := executes_eq_some_iff.1 h
  cases ht : { m.toCore with pc := m.pc + 2 }.effect m.config.dialect (.draw x y height) with
  | error f => exact absurd ((Core.effect_moved_eq_error_iff hi).1 ht) (hrefuses f)
  | ok t =>
      rw [step_of_effect hm hs hi ht]
      obtain ⟨sprite, -, rfl⟩ := map_eq_ok_iff.1 ht
      refine ⟨rfl, fun set => ?_⟩
      simp only [Core.drawn, withFlag, Registers.writeFlag_writeFlag]
      exact congrArg (fun s => { m with toCore := s }) (Core.without_of_screen
        (s := { m.toCore with pc := m.pc + 2, registers := m.registers.writeFlag set }) hD _)

/-- Two machines that are the same but for some devices stay so, and tell their hosts the same,
however these work the devices in between, until a step reads one of them. Both come to such a step
together. What is on the screen shows in the flag alone. -/
theorem noninterference (D : Device → Bool) (h : m.without D = n.without D)
    (hops : Operation.others D ops = Operation.others D ops') (hm : m.Ignores D ops) :
    let m' := m.performAll ops
    let n' := n.performAll ops'
    n.Ignores D ops' ∧ m.answers D ops = n.answers D ops' ∧ m'.without D = n'.without D ∧
    m'.reads = n'.reads ∧ ∀ a x y height, D .screen → m'.executes = some (a, .draw x y height) →
      m'.step.answer = n'.step.answer ∧
        ∀ set, (m'.step.next.withFlag set).without D = (n'.step.next.withFlag set).without D := by
  intro m' n'
  obtain ⟨hm', hrun⟩ := performAll_agree h ops
  obtain ⟨hn', hrun'⟩ := performAll_agree (D := D) (m := n) rfl ops'
  rw [← hops] at hn' hrun'
  have hn : n.Ignores D ops' := hn'.2 (hm'.1 hm)
  obtain ⟨hanswers, hlast⟩ := hrun hm
  obtain ⟨hanswers', hlast'⟩ := hrun' hn
  have hagree : m'.without D = n'.without D := hlast.trans hlast'.symm
  refine ⟨hn, hanswers.trans hanswers'.symm, hagree, reads_agree hagree, ?_⟩
  intro a x y height hD hexecutes
  have hexecutes' : n'.executes = some (a, .draw x y height) := by
    rw [← executes_without (D := D), ← hagree, executes_without, hexecutes]
  obtain ⟨hanswer, hnext⟩ := step_draw hD hexecutes
  obtain ⟨hanswer', hnext'⟩ := step_draw hD hexecutes'
  refine ⟨hanswer.trans hanswer'.symm, fun set => ?_⟩
  rw [hnext, hnext']
  exact congrArg (fun p : Machine => { p.withFlag set with pc := p.pc + 2 }) hagree

def sketch : Array UInt8 :=
  -- Puts five into a register and draws.
  #[0x60, 0x05, 0xD0, 0x01]

def sketchingAt (pc : UInt16) (registers : Registers) : Machine :=
  { fresh {} (.ofSeed 0) (some sketch) with pc, registers }

def sketching : Machine := sketchingAt 0x200 .zero

def sketched : Machine := sketchingAt 0x202 (Registers.zero.write 0 5)

def disturbed : Machine :=
  { sketching with
    timers := { delay := 9, sound := 4 }
    keypad := ⟨.replicate 16 true⟩
    screen := Screen.blank.flip 0 }

theorem sketchingAt_instructionAt (pc : UInt16) (registers : Registers) :
    let m := sketchingAt pc registers
    m.instructionAt 0x200 = some (.setByte 0 5) ∧ m.instructionAt 0x202 = some (.draw 0 0 1) := by
  have h (k : Nat) (hk : k < 0xDFF) := instructionAt_fresh {} (.ofSeed 0) sketch hk
  exact ⟨(h 0 (by decide)).trans (by decide), (h 2 (by decide)).trans (by decide)⟩

theorem noninterference_disturbed :
    let all := fun _ : Device => true
    let ops := [.step, .tick]
    let ops' := [.tick, .setKey 3 false, .step, .tick, .tick]
    let m := sketching.performAll ops
    let n := disturbed.performAll ops'
    sketching.Ignores all ops ∧ sketching.answers all ops = disturbed.answers all ops' ∧
      m.without all = n.without all ∧ m.executes = some (0x202, .draw 0 0 1) ∧
      (m.step.next.withFlag true).without all = (n.step.next.withFlag true).without all := by
  intro all ops ops' m n
  have hset : sketching.instructionAt 0x200 = some (.setByte 0 5) :=
    (sketchingAt_instructionAt _ _).1
  have hdraw : sketched.instructionAt 0x202 = some (.draw 0 0 1) :=
    (sketchingAt_instructionAt _ _).2
  have hnext : sketching.step.next = sketched :=
    step_next_of_effect (m := sketching) rfl rfl hset rfl
  have hreads : sketching.reads = none := by
    rw [reads, executes_of_effect (m := sketching) rfl rfl hset rfl]
    rfl
  have hignores : sketching.Ignores all ops := by
    refine ⟨fun _ => ?_, by rintro ⟨⟩, trivial⟩
    rw [hreads]
    exact Bool.false_ne_true
  have hm : m = sketched := congrArg (fun m : Machine => m.tick) hnext
  have hexecutes : m.executes = some (0x202, .draw 0 0 1) := by
    rw [hm]
    refine executes_eq_some_iff.2 ⟨rfl, rfl, rfl, hdraw, ?_⟩
    intro f hf
    cases hf with
    | shielded _ hw => cases hw
    | overran _ len hlen hlong =>
        cases hlen
        exact absurd hlong (by decide)
  have hsame : sketching.without all = disturbed.without all := rfl
  have hops : Operation.others all ops = Operation.others all ops' := rfl
  obtain ⟨-, hanswers, hagree, -, hpicture⟩ := noninterference all hsame hops hignores
  obtain ⟨-, hflag⟩ := hpicture 0x202 0 0 1 rfl hexecutes
  exact ⟨hignores, hanswers, hagree, hexecutes, hflag true⟩

end Machine

end Chip8
