import Chip8.Proofs.Sprites

namespace Chip8

/-- The rows of the glyph that a byte names. -/
def glyph (digit : UInt8) : List UInt8 := (font.toList.drop (5 * lowDigit digit)).take 5

theorem length_glyph (digit : UInt8) : (glyph digit).length = 5 := by
  have hd := (lowDigit digit).isLt
  rw [glyph, List.length_take, List.length_drop, Vector.length_toList]
  omega

theorem toNat_glyphAddress (digit : UInt8) :
    (glyphAddress digit).toNat = 5 * (lowDigit digit).val := by
  have := (lowDigit digit).isLt
  rw [glyphAddress, UInt16.toNat_ofNat']
  omega

namespace Memory

variable {m t : Memory}

inductive Edit
  | load (program : Array UInt8) (offset : Nat)
  | write (address : Nat) (value : UInt8)
  | writeSlice (address : Nat) (values : List UInt8)
  | seedFont
  | reset

def edit (m : Memory) : Edit → Memory
  | .load p offset => (m.load p offset).toOption.getD m
  | .write a value => (m.write a value).toOption.getD m
  | .writeSlice a values => (m.writeSlice a values).toOption.getD m
  | .seedFont => m.seedFont
  | .reset => initial

/-- The part below the first program byte is as at power-on. -/
def Intact (m : Memory) : Prop := ∀ (a : Nat) (h : a < 0x200), m.bytes[a] = initial.bytes[a]

theorem intact_initial : initial.Intact := fun _ _ => rfl

theorem Intact.seedFont (hm : m.Intact) : m.seedFont.Intact := by
  intro a h
  by_cases hfont : a < 80
  · rw [getElem_seedFont, dif_pos hfont, getElem_initial hfont]
  · rw [getElem_seedFont, dif_neg hfont, hm a h]

theorem load_eq_ok {p : Array UInt8} {offset : Nat} (ht : m.load p offset = .ok t) :
    0x200 ≤ offset ∧ t = m.overwrite p offset := by
  by_cases hoffset : offset < 0x200 ∨ 0x1000 < offset
  · simp only [load, if_pos hoffset, reduceCtorEq] at ht
  · by_cases hsize : 0x1000 - offset < p.size
    · simp only [load, if_neg hoffset, if_pos hsize, reduceCtorEq] at ht
    · simp only [load, if_neg hoffset, if_neg hsize, Except.ok.injEq] at ht
      exact ⟨by omega, ht.symm⟩

theorem Intact.load {p : Array UInt8} {offset : Nat} (hm : m.Intact)
    (ht : m.load p offset = .ok t) : t.Intact := by
  intro a h
  obtain ⟨hoffset, rfl⟩ := load_eq_ok ht
  rw [getElem_overwrite, if_pos (by omega), hm a h]

theorem Intact.write {b : Nat} {value : UInt8} (hm : m.Intact) (ht : m.write b value = .ok t) :
    t.Intact := by
  intro a h
  rw [Memory.write] at ht
  split at ht
  · cases ht
  · split at ht
    · cases ht
      rw [Vector.getElem_set_ne _ _ (by omega), hm a h]
    · cases ht

theorem Intact.writeSlice {b : Nat} {values : List UInt8} (hm : m.Intact)
    (ht : m.writeSlice b values = .ok t) : t.Intact := by
  intro a h
  have hlow := (le_of_writeSlice ht).1
  rw [eq_put_of_writeSlice ht, getElem_put, if_neg (by omega), hm a h]

theorem Intact.getD {ε : Type} {e : Except ε Memory} (hm : m.Intact)
    (he : ∀ t, e = .ok t → t.Intact) : (e.toOption.getD m).Intact := by
  cases e with
  | ok t => exact he t rfl
  | error _ => exact hm

theorem Intact.edit (hm : m.Intact) (e : Edit) : (m.edit e).Intact := by
  cases e with
  | load p offset => exact hm.getD fun _ => hm.load
  | write a value => exact hm.getD fun _ => hm.write
  | writeSlice a values => exact hm.getD fun _ => hm.writeSlice
  | seedFont => exact hm.seedFont
  | reset => exact intact_initial

theorem Intact.edits (hm : m.Intact) (edits : List Edit) : (edits.foldl Memory.edit m).Intact := by
  induction edits generalizing m with
  | nil => exact hm
  | cons e edits ih => exact ih (hm.edit e)

theorem Intact.readSlice_glyph (hm : m.Intact) (digit : UInt8) :
    m.readSlice (glyphAddress digit).toNat 5 = .ok (glyph digit) := by
  have hd := (lowDigit digit).isLt
  rw [toNat_glyphAddress, readSlice, dif_pos (by omega)]
  refine congrArg Except.ok (List.ext_getElem ?_ fun k hk hk' => ?_)
  · rw [List.length_ofFn, length_glyph]
  · have hrow : 5 * (lowDigit digit).val + k < 80 := by
      rw [List.length_ofFn] at hk
      omega
    rw [List.getElem_ofFn, hm _ (by omega), getElem_initial hrow]
    simp only [glyph, List.getElem_take, List.getElem_drop, Vector.getElem_toList]

end Memory

namespace Core

variable {d : Dialect} {s t : Core} {i : Instruction}

theorem memoryAfter_eq_ok {memory : Memory} (h : s.memoryAfter i = .ok memory) :
    memory = s.memory ∨ i.Writes ∧ ∃ values, s.memory.writeSlice s.address values = .ok memory := by
  cases i with
  | storeDecimal | store => exact .inr ⟨trivial, _, h⟩
  | _ =>
      cases h
      exact .inl rfl

theorem address_glyph (s : Core) (digit : UInt8) :
    { s with index := glyphAddress digit }.address = (glyphAddress digit).toNat := by
  have hd := (lowDigit digit).isLt
  simp only [address, UInt16.toNat_mod, toNat_glyphAddress, UInt16.reduceToNat]
  omega

theorem effect_drawGlyph {digit : UInt8} (hm : s.memory.Intact) (hs : s.index = glyphAddress digit)
    (d : Dialect) (y z : UInt8) : s.effect d (.draw y z 5) = .ok (s.drawn y z (glyph digit)) := by
  have haddress : s.address = (glyphAddress digit).toNat := by
    rw [← s.address_glyph digit, ← hs]
  have hsprite := hm.readSlice_glyph digit
  rw [← haddress] at hsprite
  exact congrArg (Except.map (s.drawn y z)) hsprite

/-- The glyph of a digit is drawn, its top left where two registers say: the pixels under its set
bits are flipped and no others, and the flag tells whether one of them was set. -/
structure DrawsGlyph (digit y z : UInt8) (s t : Core) : Prop where
  flips_iff (px : Fin 64) (py : Fin 32) : t.screen.get px py ≠ s.screen.get px py ↔
    let row := Screen.distance 32 (s.registers.read z).toNat py
    let column := Screen.distance 64 (s.registers.read y).toNat px
    row < 5 ∧ column < 8 ∧ Screen.inked (glyph digit) column row
  read_flag : t.registers.read 0xF =
    if ∃ (px : Fin 64) (py : Fin 32), t.screen.get px py ≠ s.screen.get px py ∧ s.screen.get px py
    then 1 else 0
  read_eq (w : UInt8) (hw : w < 15) : t.registers.read w = s.registers.read w

theorem drawsGlyph_drawn (s : Core) (digit y z : UInt8) :
    DrawsGlyph digit y z s (s.drawn y z (glyph digit)) := by
  have hshort : (glyph digit).length ≤ 32 := by
    rw [length_glyph]
    decide
  refine ⟨?_, read_flag_drawn hshort, ?_⟩
  · intro px py
    rw [drawn, Screen.draw_flips_iff hshort, length_glyph, and_left_comm]
  · intro w hw
    exact s.registers.read_writeFlag_of_ne _ (Nat.lt_trans hw (by decide)) (UInt8.ne_of_lt hw)

theorem DrawsGlyph.of_blank {digit y z : UInt8} (h : DrawsGlyph digit y z s t)
    (hs : s.screen = .blank) : t.registers.read 0xF = 0 ∧ ∀ (px : Fin 64) (py : Fin 32),
      t.screen.get px py ↔
        let row := Screen.distance 32 (s.registers.read z).toNat py
        let column := Screen.distance 64 (s.registers.read y).toNat px
        row < 5 ∧ column < 8 ∧ Screen.inked (glyph digit) column row := by
  have hblank (px : Fin 64) (py : Fin 32) : s.screen.get px py = false := by
    rw [hs, Screen.get_blank]
  constructor
  · rw [h.read_flag, if_neg]
    rintro ⟨px, py, -, hset⟩
    exact Bool.false_ne_true ((hblank px py).symm.trans hset)
  · intro px py
    have hflips := h.flips_iff px py
    rwa [hblank, Bool.ne_false_iff] at hflips

end Core

namespace Machine

variable {m : Machine}

theorem reload_intact (m : Machine) : m.reload.next.memory.Intact := by
  cases hp : m.program with
  | none =>
      simp only [reload, hp]
      exact Memory.intact_initial
  | some p =>
      cases hload : Memory.initial.load p 0x200 with
      | error e =>
          simp only [reload, hp, hload]
          exact Memory.intact_initial
      | ok memory =>
          simp only [reload, hp, hload]
          exact Memory.intact_initial.load hload

theorem load_intact (m : Machine) (p : Array UInt8) : (m.load p).next.memory.Intact := by
  have hreset : { m with program := none }.reset.next.memory.Intact := reload_intact _
  cases hload : { m with program := none }.reset.next.memory.load p 0x200 with
  | error e =>
      simp only [load, hload]
      exact hreset
  | ok memory =>
      simp only [load, hload]
      exact hreset.load hload

theorem perform_intact (hb : m.Bounded) (hm : m.memory.Intact) (op : Operation) :
    (m.perform op).next.memory.Intact := by
  cases op with
  | load p =>
      rw [perform_load_next]
      exact m.load_intact p
  | reset => exact m.reload_intact
  | step =>
      rw [perform_step_next]
      obtain ⟨i, t, -, ht, hnext⟩ | ⟨-, registers, pc, state, hnext⟩ := step_cases hb
      · rw [hnext]
        obtain h | ⟨-, values, h⟩ := Core.memoryAfter_eq_ok (Core.effect_memory ht)
        · exact h ▸ hm
        · exact hm.writeSlice h
      · rw [hnext]
        exact hm
  | tick => exact hm
  | setKey key pressed =>
      obtain ⟨keypad, hnext⟩ := m.perform_setKey_next key pressed
      rw [hnext]
      exact hm

theorem performAll_intact (config : Config) (host : Random.Source) (ops : List Operation) :
    ((powerOn config host).performAll ops).memory.Intact := by
  refine (performAll_keeps (P := fun n => n.Bounded ∧ n.memory.Intact) ?_ ?_ ops).2
  · exact ⟨Core.bounded_fresh _ _, Memory.intact_initial⟩
  · rintro n op ⟨hb, hn⟩
    exact ⟨perform_bounded hb op, perform_intact hb hn op⟩

/-- Whatever is done to memory and whatever a host and its programs do, the part below the first
program byte stays as it was. So each glyph is in its place, and a program that points at one and
draws five rows meets no fault and draws that glyph, also if the host does something in between. -/
theorem reserved_intact :
    (∀ edits : List Memory.Edit, (edits.foldl Memory.edit .initial).Intact) ∧
    ∀ (config : Config) (host : Random.Source) (ops : List Operation),
      let m := (powerOn config host).performAll ops
      m.memory.Intact ∧
      (∀ digit, m.memory.readSlice (glyphAddress digit).toNat 5 = .ok (glyph digit)) ∧
      ∀ x y z : UInt8, x ≤ 15 → y ≤ 15 → z ≤ 15 →
        let digit := m.registers.read x
        let pointed := { m.toCore with index := glyphAddress digit }
        (∀ d, m.toCore.perform d (.pointGlyph x) = ⟨.ok .advanced, pointed, []⟩ ∧
          pointed.perform d (.draw y z 5) =
            ⟨.ok .advanced, pointed.drawn y z (glyph digit), []⟩ ∧
          pointed.DrawsGlyph digit y z (pointed.drawn y z (glyph digit))) ∧
        (m.isLoaded → m.state = .running →
          m.instructionAt m.pc.toNat = some (.pointGlyph x) →
            m.step.answer = .ok .advanced ∧
            m.step.next = { m with toCore := { pointed with pc := m.pc + 2 } } ∧
            ∀ events, (∀ op ∈ events, ¬ op.restarts ∧ op ≠ .step) →
              let n := m.step.next.performAll events
              let moved := { n.toCore with pc := n.pc + 2 }
              n.instructionAt n.pc.toNat = some (.draw y z 5) →
                n.step.answer = .ok .advanced ∧
                n.step.next = { n with toCore := moved.drawn y z (glyph digit) } ∧
                n.DrawsGlyph digit y z n.step.next.toCore) := by
  refine ⟨Memory.intact_initial.edits, ?_⟩
  intro config host ops m
  have hb : m.Bounded := (invariant_bounded config.dialect).performAll host ops
  have hm : m.memory.Intact := performAll_intact config host ops
  refine ⟨hm, hm.readSlice_glyph, ?_⟩
  intro x y z hx hy hz digit pointed
  have hpc : m.pc.toNat + 2 < 0x10000 := by
    have := hb.pc_le
    omega
  constructor
  · intro d
    have hdraw : pointed.effect d (.draw y z 5) = .ok (pointed.drawn y z (glyph digit)) :=
      Core.effect_drawGlyph (s := pointed) hm rfl d y z
    constructor
    · exact Core.perform_of_effect (Nat.lt_succ_of_le hx) hpc rfl
    · refine ⟨?_, Core.drawsGlyph_drawn pointed digit y z⟩
      exact Core.perform_of_effect
        ⟨Nat.lt_succ_of_le hy, Nat.lt_succ_of_le hz, by decide⟩ hpc hdraw
  · intro hload hrun hi
    have hstep := step_of_effect hload hrun hi rfl
    rw [hstep]
    refine ⟨rfl, rfl, ?_⟩
    intro events hevents n moved hdraw
    obtain ⟨timers, keypad, hn⟩ : ∃ timers keypad,
        n = { m with toCore := { pointed with pc := m.pc + 2, timers, keypad } } := by
      refine performAll_idle (fun op hop => (hevents op hop).1) ?_
      intro before timers keypad hbefore
      exact absurd rfl (hevents .step (hbefore.subset (by simp))).2
    have hmoved : moved.memory.Intact ∧ moved.index = glyphAddress digit := by
      simp only [moved, hn]
      exact ⟨hm, rfl⟩
    have hn' : n.isLoaded ∧ n.state = .running := by
      rw [hn]
      exact ⟨hload, hrun⟩
    have heffect := Core.effect_drawGlyph hmoved.1 hmoved.2 n.config.dialect y z
    rw [step_of_effect hn'.1 hn'.2 hdraw heffect]
    obtain ⟨hflips, hflag, hkept⟩ := Core.drawsGlyph_drawn moved digit y z
    exact ⟨rfl, rfl, hflips, hflag, hkept⟩

def letterA : Array UInt8 :=
  -- Draws the glyph of the digit `A`.
  #[0x60, 0x1A, 0xF0, 0x29, 0xD1, 0x15]

def lettering : Machine := fresh {} (.ofSeed 0) (some letterA)

def lettered : Machine :=
  { lettering with registers := Registers.zero.write 0 0x1A, pc := 0x202 }

theorem reserved_intact_lettered :
    let n := lettered.step.next.performAll [.tick, .setKey 5 true]
    lettered.step.answer = .ok .advanced ∧ n.step.answer = .ok .advanced ∧
      n.step.next.registers.read 0xF = 0 ∧
      ∀ (px : Fin 64) (py : Fin 32), n.step.next.screen.get px py ↔
        px.val ∈ [[0, 1, 2, 3], [0, 3], [0, 1, 2, 3], [0, 3], [0, 3]].getD py [] := by
  intro n
  have h (k : Nat) (hk : k < 0xDFF) := instructionAt_fresh {} (.ofSeed 0) letterA hk
  have hset : lettering.instructionAt 0x200 = some (.setByte 0 0x1A) :=
    (h 0 (by decide)).trans (by decide)
  have hpoint : lettered.instructionAt 0x202 = some (.pointGlyph 0) :=
    (h 2 (by decide)).trans (by decide)
  have hdraw : lettered.instructionAt 0x204 = some (.draw 1 1 5) :=
    (h 4 (by decide)).trans (by decide)
  have hrun : (powerOn {} (.ofSeed 0)).performAll [.load letterA, .step] = lettered := by
    refine (congrArg (fun k : Machine => k.step.next)
      (performAll_load {} (.ofSeed 0) (by decide))).trans ?_
    exact congrArg (fun r => r.next) (step_of_effect (m := lettering) rfl rfl hset rfl)
  have hm := reserved_intact.2 {} (.ofSeed 0) [.load letterA, .step]
  rw [hrun] at hm
  obtain ⟨hanswer, hnext, hshown⟩ :=
    (hm.2.2 0 1 1 (by decide) (by decide) (by decide)).2 rfl rfl hpoint
  have hevents := hshown [.tick, .setKey 5 true] (by decide) (by
    rw [hnext]
    exact hdraw)
  have hglyph : n.DrawsGlyph 0x1A 1 1 n.step.next.toCore := hevents.2.2
  have hbefore : n.screen = .blank ∧ n.registers.read 1 = 0 := by
    simp only [n, hnext]
    exact ⟨rfl, by decide⟩
  obtain ⟨hflag, hseen⟩ := hglyph.of_blank hbefore.1
  rw [hbefore.2] at hseen
  have hpicture : ∀ (px : Fin 64) (py : Fin 32),
      (Screen.distance 32 0 py < 5 ∧ Screen.distance 64 0 px < 8 ∧
        Screen.inked (glyph 0x1A) (Screen.distance 64 0 px) (Screen.distance 32 0 py)) ↔
      px.val ∈ [[0, 1, 2, 3], [0, 3], [0, 1, 2, 3], [0, 3], [0, 3]].getD py [] := by
    decide +kernel
  exact ⟨hanswer, hevents.1, hflag, fun px py => (hseen px py).trans (hpicture px py)⟩

end Machine

end Chip8
