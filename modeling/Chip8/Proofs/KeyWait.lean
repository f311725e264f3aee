import Chip8.Proofs.Execution
import Chip8.Proofs.Halting

namespace Chip8

namespace Keypad

variable {k l : Keypad} {key : UInt8}

def update (k : Keypad) (key : UInt8) (pressed : Bool) : Keypad :=
  match k.set key pressed with
  | .ok l => l
  | .error _ => k

theorem isPressed_update (k : Keypad) (key : UInt8) (pressed : Bool) {j : UInt8}
    (hj : j.toNat < 16) :
    (k.update key pressed).isPressed j = if key = j then pressed else k.isPressed j := by
  by_cases h : key.toNat < 16
  · simp only [update, set, h, dite_true, isPressed_of_lt hj, Vector.getElem_set,
      UInt8.toNat_inj]
  · have hne : key ≠ j := by
      rintro rfl
      exact h hj
    simp only [update, set, h, dite_false, if_neg hne]

theorem eq_of_isPressed (h : ∀ j : UInt8, j.toNat < 16 → k.isPressed j = l.isPressed j) :
    k = l := by
  obtain ⟨keys⟩ := k
  obtain ⟨keys'⟩ := l
  congr 1
  ext n hn
  have hkey : (UInt8.ofNat n).toNat = n := by
    rw [UInt8.toNat_ofNat']
    omega
  have hpressed := h (UInt8.ofNat n) (by omega)
  rw [isPressed_of_lt (by omega), isPressed_of_lt (by omega)] at hpressed
  simpa only [hkey] using hpressed

def AgreeOff (key : UInt8) (k l : Keypad) : Prop :=
  ∀ j : UInt8, j.toNat < 16 → j ≠ key → k.isPressed j = l.isPressed j

theorem AgreeOff.update (h : AgreeOff key k l) (j : UInt8) (pressed : Bool) :
    AgreeOff key (k.update j pressed) (l.update j pressed) := by
  intro i hi hne
  rw [isPressed_update k j pressed hi, isPressed_update l j pressed hi, h i hi hne]

theorem AgreeOff.update_left (h : AgreeOff key k l) (pressed : Bool) :
    AgreeOff key (k.update key pressed) l := by
  intro i hi hne
  rw [isPressed_update k key pressed hi, if_neg hne.symm, h i hi hne]

end Keypad

/-- Whether an operation is the host's at one key. -/
def Operation.touches (key : UInt8) : Operation → Bool
  | .setKey k _ => k == key
  | _ => false

namespace Core

variable {d : Dialect} {s : Core} {x key : UInt8} {t : Transition (Except Fault Progress) Core}

theorem step_of_waiting (hs : s.state = .awaitingKey x) (hk : s.keypad.lowest = none) :
    s.step d = ⟨.ok .awaitingKey, s, []⟩ :=
  (Steps.waiting x hs hk).step_eq

theorem step_of_keyed (hs : s.state = .awaitingKey x) (hx : x.toNat < 16)
    (hk : s.keypad.lowest = some key) :
    s.step d = ⟨.ok .advanced, { s.write x key with state := .running }, [.keyStored key x]⟩ :=
  (Steps.keyed x key hs hx hk).step_eq

/-- A core that waits for a key stands behind the instruction that has asked for it. -/
def Waits (s : Core) : Prop :=
  ∀ x, s.state = .awaitingKey x → s.instructionAt (s.pc - 2).toNat = some (.awaitKey x)

theorem Steps.awaiting_cases (ht : Steps d s t) (hx : t.next.state = .awaitingKey x) :
    (s.instructionAt s.pc.toNat = some (.awaitKey x) ∧
      t.next = { s with pc := s.pc + 2, state := .awaitingKey x }) ∨
    (s.state = .awaitingKey x ∧ t.next = s) := by
  cases ht with
  | unfetched | undecoded | faulted | keyed => cases hx
  | executed i u hs hi hu =>
      rw [effect_state hu] at hx
      cases i with
      | awaitKey y =>
          cases hx
          cases hu
          exact .inl ⟨hi, rfl⟩
      | _ => cases hs.symm.trans hx
  | waiting => exact .inr ⟨hx, rfl⟩
  | stopped => exact .inr ⟨hx, rfl⟩

theorem step_waits (hb : s.Bounded) (hs : s.Waits) : (s.step d).next.Waits := by
  intro x hx
  rcases (steps_step (d := d) hb.register_lt).awaiting_cases hx with ⟨hi, hnext⟩ | ⟨hx, hnext⟩
  · rw [hnext, UInt16.add_sub_cancel]
    exact hi
  · rw [hnext]
    exact hs x hx

theorem invariant_waits (d : Dialect) : Machine.Invariant d fun s => s.Bounded ∧ s.Waits where
  fresh memory random := ⟨bounded_fresh memory random, by rintro x ⟨⟩⟩
  step s hs := ⟨step_bounded hs.1, step_waits hs.1 hs.2⟩
  devices s timers keypad hs := ⟨(invariant_bounded d).devices s timers keypad hs.1, hs.2⟩

end Core

namespace Machine

variable {m n : Machine} {x key : UInt8} {ops events : List Operation}

theorem perform_setKey (m : Machine) (key : UInt8) (pressed : Bool) :
    (m.perform (.setKey key pressed)).next =
      { m with keypad := m.keypad.update key pressed } := by
  simp only [perform, setKey, Keypad.update]
  cases m.keypad.set key pressed with
  | ok l => rfl
  | error e => rfl

theorem step_of_waiting (hm : m.isLoaded) (hs : m.state = .awaitingKey x)
    (hk : m.keypad.any = false) : m.step = ⟨.ok .awaitingKey, m, []⟩ := by
  rw [step_of_isLoaded hm, Core.step_of_waiting hs (Keypad.lowest_eq_none_iff.2 hk)]

theorem step_of_keyed (hm : m.isLoaded) (hs : m.state = .awaitingKey x) (hx : x.toNat < 16)
    (hk : m.keypad.lowest = some key) : m.step = ⟨.ok .advanced,
      { m with registers := m.registers.write x key, state := .running }, [.keyStored key x]⟩ := by
  rw [step_of_isLoaded hm, Core.step_of_keyed hs hx hk]
  rfl

theorem performAll_of_waiting (hm : m.isLoaded) (hs : m.state = .awaitingKey x)
    (hops : ∀ op ∈ ops, ¬ op.restarts)
    (hkeys : ∀ before, before ++ [.step] <+: ops → (m.performAll before).keypad.any = false) :
    ∃ timers keypad, m.performAll ops = { m with timers, keypad } := by
  apply performAll_idle hops
  intro before timers keypad hbefore h
  have hk := hkeys before hbefore
  rw [h] at hk ⊢
  have hstep := step_of_waiting (m := { m with timers, keypad }) hm hs hk
  rw [hstep]

theorem performAll_agreeOff {k : Keypad} (hevents : ∀ op ∈ events, ¬ op.restarts ∧ op ≠ .step)
    (hk : Keypad.AgreeOff key m.keypad k) :
    ∃ l, performAll { m with keypad := k } (events.filter fun op => !op.touches key) =
        { m.performAll events with keypad := l } ∧
      Keypad.AgreeOff key (m.performAll events).keypad l ∧
      (key.toNat < 16 → l.isPressed key = k.isPressed key) := by
  -- Setting `key` moves one keypad alone, so that the induction is over two keypads that agree.
  induction events generalizing m k with
  | nil => exact ⟨k, rfl, hk, fun _ => rfl⟩
  | cons op events ih =>
      have hop := hevents op List.mem_cons_self
      have ih {m : Machine} {k : Keypad} := ih (m := m) (k := k)
        fun op h => hevents op (List.mem_cons_of_mem _ h)
      cases op with
      | load | reset => exact absurd rfl hop.1
      | step => exact absurd rfl hop.2
      | tick => exact ih (m := m.tick) hk
      | setKey j pressed =>
          have hset (k : Keypad) (ops : List Operation) :
              performAll { m with keypad := k } (.setKey j pressed :: ops) =
                performAll { m with keypad := k.update j pressed } ops :=
            congrArg (performAll · ops) (perform_setKey { m with keypad := k } j pressed)
          have hrun := hset m.keypad events
          rw [show m.performAll (.setKey j pressed :: events) = _ from hrun]
          by_cases hj : j = key
          · subst hj
            rw [List.filter_cons_of_neg (by simp [Operation.touches])]
            exact ih (m := { m with keypad := m.keypad.update j pressed }) (hk.update_left pressed)
          · rw [List.filter_cons_of_pos (by simpa [Operation.touches] using hj), hset k]
            obtain ⟨l, hl, hagree, hpressed⟩ :=
              ih (m := { m with keypad := m.keypad.update j pressed }) (hk.update j pressed)
            refine ⟨l, hl, hagree, fun hlt => (hpressed hlt).trans ?_⟩
            rw [Keypad.isPressed_update k j pressed hlt, if_neg hj]

/-- What the host does at a key that is up in the end as in the beginning, might as well not have
been done. -/
theorem performAll_filter_touches (hevents : ∀ op ∈ events, ¬ op.restarts ∧ op ≠ .step)
    (hup : ¬ m.keypad.isPressed key) (hup' : ¬ (m.performAll events).keypad.isPressed key) :
    m.performAll events = m.performAll (events.filter fun op => !op.touches key) := by
  have hsame : Keypad.AgreeOff key m.keypad m.keypad := fun _ _ _ => rfl
  obtain ⟨l, hl, hagree, hpressed⟩ := performAll_agreeOff hevents hsame
  have heq : (m.performAll events).keypad = l := by
    apply Keypad.eq_of_isPressed
    intro j hj
    by_cases h : j = key
    · subst h
      rw [hpressed hj, eq_false_of_ne_true hup, eq_false_of_ne_true hup']
    · exact hagree j hj h
  rw [show m.performAll (events.filter _) = _ from hl, ← heq]

/-- Asking for a key only puts the machine to wait, whatever keys are held. From then on steps
change nothing until one finds a key held: it stores the least of those, and the program goes on
behind the instruction that has asked. What is pressed and let go between two steps is lost. -/
theorem keyWait :
    (∀ (m : Machine) (x : UInt8), m.isLoaded → m.state = .running →
      m.instructionAt m.pc.toNat = some (.awaitKey x) →
        m.step.answer = .ok .awaitingKey ∧
          m.step.next = { m with pc := m.pc + 2, state := .awaitingKey x }) ∧
    (∀ (config : Config) (host : Random.Source) (history : List Operation) (x : UInt8),
      let m := (powerOn config host).performAll history
      m.state = .awaitingKey x →
        m.instructionAt (m.pc - 2).toNat = some (.awaitKey x) ∧
        ∀ ops : List Operation, (∀ op ∈ ops, ¬ op.restarts) →
          (∀ before, before ++ [.step] <+: ops → (m.performAll before).keypad.any = false) →
          let n := m.performAll ops
          n = { m with timers := n.timers, keypad := n.keypad } ∧
          (n.keypad.any = false → n.step = ⟨.ok .awaitingKey, n, []⟩) ∧
          (n.keypad.any → ∃ key : UInt8, key.toNat ≤ 15 ∧ n.keypad.isPressed key ∧
            (∀ j, j < key → ¬ n.keypad.isPressed j) ∧ n.step.answer = .ok .advanced ∧
            n.step.next = { n with registers := m.registers.write x key, state := .running } ∧
            ∀ y : UInt8, y.toNat ≤ 15 → n.step.next.registers.read y =
              if x = y then key else m.registers.read y)) ∧
    ∀ (n : Machine) (key : UInt8) (events : List Operation),
      (∀ op ∈ events, ¬ op.restarts ∧ op ≠ .step) →
      ¬ n.keypad.isPressed key → ¬ (n.performAll events).keypad.isPressed key →
        n.performAll events = n.performAll (events.filter fun op => !op.touches key) := by
  refine ⟨?_, ?_, ?_⟩
  · intro m x hm hs hi
    rw [step_of_effect hm hs hi rfl]
    exact ⟨rfl, rfl⟩
  · intro config host history x m hs
    obtain ⟨hb, hwaits⟩ := (Core.invariant_waits config.dialect).performAll host history
    have hx : x.toNat < 16 := hb.register_lt x hs
    have hm : m.isLoaded := by
      apply isLoaded_of_state_ne config host history
      rw [show m.state = _ from hs]
      rintro ⟨⟩
    refine ⟨hwaits x hs, fun ops hops hkeys => ?_⟩
    obtain ⟨timers, keypad, h⟩ := performAll_of_waiting hm hs hops hkeys
    dsimp only
    rw [h]
    refine ⟨rfl, fun hk => step_of_waiting hm hs hk, fun hk => ?_⟩
    obtain ⟨key, hkey⟩ : ∃ key, keypad.lowest = some key := by
      rw [← Option.ne_none_iff_exists', Ne, Keypad.lowest_eq_none_iff, Bool.not_eq_false]
      exact hk
    obtain ⟨hlt, hpressed, hleast⟩ := Keypad.lowest_eq_some hkey
    have hstep := step_of_keyed (m := { m with timers, keypad }) hm hs hx hkey
    refine ⟨key, Nat.le_of_lt_succ hlt, hpressed, hleast, ?_⟩
    rw [hstep]
    exact ⟨rfl, rfl, fun y hy => m.registers.read_write_of_lt hx (Nat.lt_succ_of_le hy) key⟩
  · intro n key events
    exact performAll_filter_touches

def asking : Machine := fresh {} (.ofSeed 0) (some #[0xF3, 0x0A])

def asked : Machine := { asking with pc := 0x202, state := .awaitingKey 3 }

def pressing : List Operation :=
  [.step, .setKey 0xC true, .setKey 7 true, .tick, .setKey 0x20 true]

theorem keyWait_asked :
    let n := asked.performAll pressing
    asking.step.next = asked ∧ n.step.answer = .ok .advanced ∧ n.step.next.registers.read 3 = 7 ∧
      asked.performAll [.setKey 5 true, .tick, .setKey 9 true, .setKey 5 false] =
        asked.performAll [.tick, .setKey 9 true] := by
  intro n
  have hi : asking.instructionAt 0x200 = some (.awaitKey 3) :=
    (instructionAt_fresh {} (.ofSeed 0) #[0xF3, 0x0A] (k := 0) (by decide)).trans (by decide)
  have hasked : asking.step.next = asked := (keyWait.1 asking 3 rfl rfl hi).2
  have hrun : (powerOn {} (.ofSeed 0)).performAll [.load #[0xF3, 0x0A], .step] = asked := by
    refine Eq.trans ?_ hasked
    exact congrArg (fun k : Machine => k.step.next) (performAll_load {} (.ofSeed 0) (by decide))
  have hup : asked.keypad.any = false := Keypad.lowest_eq_none_iff.1 (by decide)
  have hsteps : ∀ before, before ++ [.step] <+: pressing →
      (asked.performAll before).keypad.any = false := by
    intro before hbefore
    cases before with
    | nil => exact hup
    | cons op rest =>
        have hmem := (List.cons_prefix_cons.1 hbefore).2.subset
          (List.mem_append_right rest List.mem_cons_self)
        exact absurd hmem (by decide)
  have hkeys : n.keypad = (asked.performAll pressing.tail).keypad := by
    have hstep : asked.step.next = asked := by
      rw [step_of_waiting rfl rfl hup]
    exact congrArg (fun k : Machine => (k.performAll pressing.tail).keypad) hstep
  have hwait := keyWait.2.1 {} (.ofSeed 0) [.load #[0xF3, 0x0A], .step] 3
  rw [hrun] at hwait
  obtain ⟨-, -, hkeyed⟩ := (hwait rfl).2 pressing (by decide) hsteps
  obtain ⟨key, hle, hpressed, hleast, hanswer, -, hread⟩ := hkeyed (by
    rw [hkeys, Keypad.any_iff]
    exact ⟨7, by decide⟩)
  have hkey : key = 7 := by
    rw [hkeys] at hpressed hleast
    have hbelow : ∀ k < 7, ¬ (asked.performAll pressing.tail).keypad.isPressed (UInt8.ofNat k) := by
      decide
    rcases Nat.lt_trichotomy key.toNat 7 with hlt | heq | hgt
    · exact absurd (by rwa [UInt8.ofNat_toNat]) (hbelow key.toNat hlt)
    · exact UInt8.toNat_inj.1 heq
    · exact absurd (by decide) (hleast 7 (UInt8.lt_iff_toNat_lt.2 hgt))
  refine ⟨hasked, hanswer, ?_, ?_⟩
  · rw [hread 3 (by decide), hkey]
    rfl
  · exact keyWait.2.2 asked 5 _ (by decide) (by decide) (by decide)

end Machine

end Chip8
