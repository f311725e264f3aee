import Chip8.Proofs.Execution
import Mathlib.Logic.Basic

namespace Chip8

namespace Arithmetic

variable {op : Arithmetic} {d : Dialect} {v : Registers} {x y z : UInt8}

theorem result_of_flag {set : Bool} (h : op.flag d (v.read x) (v.read y) = some set) :
    op.result d x y v = (v.write x (op.value d (v.read x) (v.read y))).writeFlag set := by
  rw [result, h]

theorem result_of_no_flag (h : op.flag d (v.read x) (v.read y) = none) :
    op.result d x y v = v.write x (op.value d (v.read x) (v.read y)) := by
  rw [result, h]

theorem read_result_of_ne (hx : x ≤ 15) (hz : z ≤ 15) (hzx : z ≠ x) (hzf : z ≠ 0xF) :
    (op.result d x y v).read z = v.read z := by
  have hx : x.toNat < 16 := Nat.lt_succ_of_le hx
  have hz : z.toNat < 16 := Nat.lt_succ_of_le hz
  cases hflag : op.flag d (v.read x) (v.read y) with
  | none => rw [result_of_no_flag hflag, v.read_write_of_lt hx hz, if_neg hzx.symm]
  | some set =>
      rw [result_of_flag hflag, Registers.read_writeFlag_of_ne _ _ hz hzf,
        v.read_write_of_lt hx hz, if_neg hzx.symm]

theorem read_result_of_flag {P : Prop} [Decidable P] (hx : x ≤ 15)
    (h : op.flag d (v.read x) (v.read y) = some (decide P)) :
    ((op.result d x y v).read 0xF).toNat = (if P then 1 else 0) ∧
      (x ≠ 0xF → (op.result d x y v).read x = op.value d (v.read x) (v.read y)) := by
  have hx : x.toNat < 16 := Nat.lt_succ_of_le hx
  rw [result_of_flag h]
  constructor
  · rw [Registers.read_writeFlag_self]
    by_cases hP : P
    · simp [hP]
    · simp [hP]
  · intro hne
    rw [Registers.read_writeFlag_of_ne _ _ hx hne, Registers.read_write, if_pos rfl]

theorem add_carries (hx : x ≤ 15) (d : Dialect) (v : Registers) (y : UInt8) :
    let w := add.result d x y v
    ((w.read 0xF).toNat = if 0x100 ≤ (v.read x).toNat + (v.read y).toNat then 1 else 0) ∧
    (x ≠ 0xF →
      (w.read x).toNat + 0x100 * (w.read 0xF).toNat = (v.read x).toNat + (v.read y).toNat) := by
  intro w
  obtain ⟨hflag, hvalue⟩ :
      ((w.read 0xF).toNat = if 0x100 ≤ (v.read x).toNat + (v.read y).toNat then 1 else 0) ∧
        (x ≠ 0xF → w.read x = v.read x + v.read y) := read_result_of_flag hx rfl
  refine ⟨hflag, ?_⟩
  intro hne
  have ha := (v.read x).toNat_lt
  have hb := (v.read y).toNat_lt
  rw [hvalue hne, UInt8.toNat_add, hflag]
  split <;> omega

theorem difference_borrows {a b : UInt8} (hx : x ≤ 15)
    (hdifference : op.value d (v.read x) (v.read y) = a - b)
    (hborrow : op.flag d (v.read x) (v.read y) = some (decide (b ≤ a))) :
    let w := op.result d x y v
    ((w.read 0xF).toNat = if b.toNat ≤ a.toNat then 1 else 0) ∧
    (x ≠ 0xF →
      ((w.read x).toNat : Int) = a.toNat - b.toNat + 0x100 * (1 - (w.read 0xF).toNat)) := by
  intro w
  obtain ⟨hflag, hvalue⟩ : ((w.read 0xF).toNat = if b.toNat ≤ a.toNat then 1 else 0) ∧
      (x ≠ 0xF → w.read x = op.value d (v.read x) (v.read y)) := read_result_of_flag hx hborrow
  refine ⟨hflag, ?_⟩
  intro hne
  have ha := a.toNat_lt
  have hb := b.toNat_lt
  rw [hvalue hne, hdifference, UInt8.toNat_sub, hflag]
  split <;> omega

theorem shiftRight_halves (hx : x ≤ 15) (d : Dialect) (v : Registers) (y : UInt8) :
    let w := shiftRight.result d x y v
    let source := (d.shiftOperand (v.read x) (v.read y)).toNat
    (w.read 0xF).toNat = source % 2 ∧
    (x ≠ 0xF → 2 * (w.read x).toNat + (w.read 0xF).toNat = source) := by
  intro w source
  obtain ⟨hflag, hvalue⟩ :
      ((w.read 0xF).toNat = if d.shiftOperand (v.read x) (v.read y) % 2 = 1 then 1 else 0) ∧
        (x ≠ 0xF → w.read x = d.shiftOperand (v.read x) (v.read y) / 2) :=
    read_result_of_flag hx rfl
  have hbit : (w.read 0xF).toNat = source % 2 := by
    have hodd : d.shiftOperand (v.read x) (v.read y) % 2 = 1 ↔ source % 2 = 1 := by
      rw [← UInt8.toNat_inj, UInt8.toNat_mod]
      rfl
    rw [hflag, if_congr hodd rfl rfl]
    split <;> omega
  refine ⟨hbit, ?_⟩
  intro hne
  rw [hvalue hne, hbit, UInt8.toNat_div]
  exact Nat.div_add_mod source 2

theorem shiftLeft_doubles (hx : x ≤ 15) (d : Dialect) (v : Registers) (y : UInt8) :
    let w := shiftLeft.result d x y v
    let source := (d.shiftOperand (v.read x) (v.read y)).toNat
    (w.read 0xF).toNat = source / 0x80 ∧
    (x ≠ 0xF → (w.read x).toNat + 0x100 * (w.read 0xF).toNat = 2 * source) := by
  intro w source
  obtain ⟨hflag, hvalue⟩ : ((w.read 0xF).toNat = if 0x80 ≤ source then 1 else 0) ∧
      (x ≠ 0xF → w.read x = d.shiftOperand (v.read x) (v.read y) * 2) := read_result_of_flag hx rfl
  have hlt : source < 0x100 := UInt8.toNat_lt _
  have hbit : (w.read 0xF).toNat = source / 0x80 := by
    rw [hflag]
    split <;> omega
  refine ⟨hbit, ?_⟩
  intro hne
  have hdouble : (w.read x).toNat = source * 2 % 0x100 := by
    rw [hvalue hne, UInt8.toNat_mul]
    rfl
  omega

def bitwise : Arithmetic → Option (Nat → Nat → Nat)
  | or => some (· ||| ·)
  | and => some (· &&& ·)
  | xor => some (· ^^^ ·)
  | _ => none

theorem bitwise_eq_some {f : Nat → Nat → Nat} (h : op.bitwise = some f) (d : Dialect)
    (a b : UInt8) : (op.value d a b).toNat = f a.toNat b.toNat ∧
      op.flag d a b = if d.logicClearsFlag then some false else none := by
  cases op with
  | or =>
      cases h
      exact ⟨UInt8.toNat_or a b, rfl⟩
  | and =>
      cases h
      exact ⟨UInt8.toNat_and a b, rfl⟩
  | xor =>
      cases h
      exact ⟨UInt8.toNat_xor a b, rfl⟩
  | copy | add | sub | shiftRight | subFrom | shiftLeft => cases h

theorem bitwise_clears {f : Nat → Nat → Nat} (hx : x ≤ 15) (h : op.bitwise = some f) (d : Dialect)
    (v : Registers) (y : UInt8) :
    let w := op.result d x y v
    (d.logicClearsFlag → (w.read 0xF).toNat = 0) ∧
    (¬ d.logicClearsFlag → x ≠ 0xF → (w.read 0xF).toNat = (v.read 0xF).toNat) ∧
    (x ≠ 0xF ∨ ¬ d.logicClearsFlag →
      (w.read x).toNat = f (v.read x).toNat (v.read y).toNat) := by
  intro w
  obtain ⟨hvalue, hflag⟩ := bitwise_eq_some h d (v.read x) (v.read y)
  by_cases hclears : d.logicClearsFlag
  · rw [if_pos hclears] at hflag
    obtain ⟨hcleared, hread⟩ : (w.read 0xF).toNat = (if False then 1 else 0) ∧
        (x ≠ 0xF → w.read x = op.value d (v.read x) (v.read y)) := read_result_of_flag hx hflag
    refine ⟨fun _ => hcleared, absurd hclears, ?_⟩
    intro hne
    rw [hread (hne.resolve_right (not_not_intro hclears)), hvalue]
  · rw [if_neg hclears] at hflag
    have hw : w = v.write x (op.value d (v.read x) (v.read y)) := result_of_no_flag hflag
    refine ⟨fun h => absurd h hclears, ?_, ?_⟩
    · intro _ hne
      rw [hw, v.read_write_of_lt (Nat.lt_succ_of_le hx) (by decide), if_neg hne]
    · intro _
      rw [hw, Registers.read_write, if_pos rfl, hvalue]

end Arithmetic

namespace Core

/-- What `8XY1` to `8XYE` do to the registers, also where `VF` or one register twice is an operand.
Where the result and the flag both go to `VF`, it is the flag that stays. -/
theorem perform_combine (d : Dialect) (s : Core) {x y : UInt8} (hx : x ≤ 15) (hy : y ≤ 15) :
    let t (op : Arithmetic) := s.perform d (.combine op x y)
    let v (z : UInt8) : Nat := (s.registers.read z).toNat
    let w (op : Arithmetic) (z : UInt8) : Nat := ((t op).next.registers.read z).toNat
    let source : Nat := if d.shiftsSecond then v y else v x
    (∀ op, (t op).answer = .ok .advanced ∧
      (t op).next = { s with registers := (t op).next.registers } ∧
      ∀ z ≤ 15, z ≠ x → z ≠ 0xF → w op z = v z) ∧
    ((w .add 0xF = if 0x100 ≤ v x + v y then 1 else 0) ∧
      (x ≠ 0xF → w .add x + 0x100 * w .add 0xF = v x + v y)) ∧
    ((w .sub 0xF = if v y ≤ v x then 1 else 0) ∧
      (x ≠ 0xF → (w .sub x : Int) = v x - v y + 0x100 * (1 - w .sub 0xF))) ∧
    ((w .subFrom 0xF = if v x ≤ v y then 1 else 0) ∧
      (x ≠ 0xF → (w .subFrom x : Int) = v y - v x + 0x100 * (1 - w .subFrom 0xF))) ∧
    (w .shiftRight 0xF = source % 2 ∧
      (x ≠ 0xF → 2 * w .shiftRight x + w .shiftRight 0xF = source)) ∧
    (w .shiftLeft 0xF = source / 0x80 ∧
      (x ≠ 0xF → w .shiftLeft x + 0x100 * w .shiftLeft 0xF = 2 * source)) ∧
    ∀ op f, op.bitwise = some f →
      (d.logicClearsFlag → w op 0xF = 0) ∧
      (¬ d.logicClearsFlag → x ≠ 0xF → w op 0xF = v 0xF) ∧
      (x ≠ 0xF ∨ ¬ d.logicClearsFlag → w op x = f (v x) (v y)) := by
  intro t v w source
  have ht (op : Arithmetic) :
      t op = ⟨.ok .advanced, { s with registers := op.result d x y s.registers }, []⟩ :=
    perform_of_run_eq_ok (Action.run_apply (Nat.lt_succ_of_le hx) (Nat.lt_succ_of_le hy) op)
  have hsource : (d.shiftOperand (s.registers.read x) (s.registers.read y)).toNat = source :=
    apply_ite UInt8.toNat _ _ _
  simp only [w, ht, ← hsource]
  refine ⟨?_, Arithmetic.add_carries hx d _ y, Arithmetic.difference_borrows hx rfl rfl,
    Arithmetic.difference_borrows hx rfl rfl, Arithmetic.shiftRight_halves hx d _ y,
    Arithmetic.shiftLeft_doubles hx d _ y, ?_⟩
  · intro op
    refine ⟨trivial, trivial, ?_⟩
    intro z hz hzx hzf
    rw [Arithmetic.read_result_of_ne hx hz hzx hzf]
  · intro op f hf
    exact Arithmetic.bitwise_clears hx hf d _ y

def brimming : Core where
  registers := (Registers.zero.write 0xE 0xF0).write 0xF 0x37
  random := .ofSeed 0

theorem perform_combine_brimming :
    let w (op : Arithmetic) (x z : UInt8) : Nat :=
      ((brimming.perform .chip48 (.combine op x 0xF)).next.registers.read z).toNat
    w .add 0xE 0xF = 1 ∧ w .add 0xE 0xE + 0x100 * w .add 0xE 0xF = 0xF0 + 0x37 ∧
      w .shiftRight 0xF 0xF = 1 ∧ w .xor 0xF 0xF = 0 ∧ w .xor 0xE 0xF = 0x37 := by
  intro w
  have h (x : UInt8) (hx : x ≤ 15) := perform_combine .chip48 brimming hx (y := 0xF) (by decide)
  obtain ⟨-, hadd, -, -, -, -, hbits⟩ := h 0xE (by decide)
  obtain ⟨-, -, -, -, hshift, -, hbits'⟩ := h 0xF (by decide)
  refine ⟨hadd.1.trans (by decide), (hadd.2 (by decide)).trans (by decide),
    hshift.1.trans (by decide), ?_, ?_⟩
  · exact ((hbits' .xor _ rfl).2.2 (.inr (by decide))).trans (by decide)
  · exact ((hbits .xor _ rfl).2.1 (by decide) (by decide)).trans (by decide)

end Core

end Chip8
