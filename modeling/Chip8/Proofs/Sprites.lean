import Chip8.Proofs.Feasibility
import Chip8.Proofs.Overdrawing

namespace Chip8

namespace Screen

variable {x y : Nat} {sprite : List UInt8} {px : Fin 64} {py : Fin 32}

/-- How far it is from one coordinate on to another, where there are `n` of them in a circle. -/
def distance (n x p : Nat) : Nat := (((p : Int) - x) % n).toNat

theorem distance_zero {n p : Nat} (hp : p < n) : distance n 0 p = p := by
  rw [distance, Int.natCast_zero, sub_zero, Int.emod_eq_of_lt (by omega) (by omega),
    Int.toNat_natCast]

theorem add_mod_eq_iff {n p d : Nat} (hd : d < n) (hp : p < n) :
    (x + d) % n = p ↔ d = distance n x p := by
  have hn : (n : Int) ≠ 0 := by omega
  have hdist : (distance n x p : Int) = ((p : Int) - x) % n :=
    Int.toNat_of_nonneg (Int.emod_nonneg _ hn)
  have small {k : Nat} (hk : k < n) : (k : Int) % n = k := Int.emod_eq_of_lt (by omega) (by omega)
  rw [← Int.natCast_inj, Int.natCast_emod, Int.natCast_add, ← @Int.natCast_inj d, hdist]
  constructor
  · intro h
    rw [← h, Int.emod_sub_emod, add_sub_cancel_left, small hd]
  · intro h
    rw [h, Int.add_emod_emod, add_sub_cancel, small hp]

theorem position_mem_cells (h : sprite.length ≤ 32) : position px py ∈ cells x y sprite ↔
    distance 64 x px < 8 ∧ distance 32 y py < sprite.length ∧
      inked sprite (distance 64 x px) (distance 32 y py) := by
  rw [cells_eq_map, List.mem_map, ← mem_strokes]
  constructor
  · rintro ⟨⟨dx, dy⟩, hc, heq⟩
    obtain ⟨hdx, hdy, -⟩ := mem_strokes.1 hc
    obtain ⟨hpx, hpy⟩ := position_eq_iff.1 heq
    rw [add_mod_eq_iff (by omega) px.isLt] at hpx
    rw [add_mod_eq_iff (by omega) py.isLt] at hpy
    rwa [← hpx, ← hpy]
  · intro hc
    obtain ⟨hdx, hdy, -⟩ := mem_strokes.1 hc
    refine ⟨_, hc, position_eq_iff.2 ⟨?_, ?_⟩⟩
    · exact (add_mod_eq_iff (by omega) px.isLt).2 rfl
    · exact (add_mod_eq_iff (by omega) py.isLt).2 rfl

theorem draw_flips_iff (h : sprite.length ≤ 32) (s : Screen) :
    (s.draw x y sprite).1.get px py ≠ s.get px py ↔
      distance 64 x px < 8 ∧ distance 32 y py < sprite.length ∧
        inked sprite (distance 64 x px) (distance 32 y py) :=
  (flipAll_flips_iff (nodup_cells h x y) s false _).trans (position_mem_cells h)

end Screen

namespace Core

variable {d : Dialect} {s : Core} {x y n : UInt8} {sprite : List UInt8}

theorem perform_draw_of_read (hx : x ≤ 15) (hy : y ≤ 15)
    (hread : s.memory.readSlice s.address n.toNat = .ok sprite) :
    s.perform d (.draw x y n) = ⟨.ok .advanced, s.drawn x y sprite, []⟩ := by
  have hrun := Action.run_draw (s := s) (Nat.lt_succ_of_le hx) (Nat.lt_succ_of_le hy) n
  rw [Core.draw, hread] at hrun
  exact perform_of_run_eq_ok hrun

theorem perform_draw_of_lt (hx : x ≤ 15) (hy : y ≤ 15) (h : 0x1000 < s.address + n.toNat) :
    s.perform d (.draw x y n) = ⟨.error (.outOfBounds 0x1000), s, []⟩ := by
  have hrun := Action.run_draw (s := s) (Nat.lt_succ_of_le hx) (Nat.lt_succ_of_le hy) n
  rw [Core.draw, readPointed_eq_error_iff.2 ⟨h, rfl⟩] at hrun
  exact perform_of_run_eq_error hrun

theorem drawn_flips_iff {px : Fin 64} {py : Fin 32} (hshort : sprite.length ≤ 32)
    (hread : s.memory.readSlice s.address n.toNat = .ok sprite) :
    let r := Screen.distance 32 (s.registers.read y).toNat py
    let c := Screen.distance 64 (s.registers.read x).toNat px
    (s.drawn x y sprite).screen.get px py ≠ s.screen.get px py ↔
      r < n.toNat ∧ c < 8 ∧
        ∃ row, s.memory.read (s.address + r) = .ok row ∧ row.toNat.testBit (7 - c) := by
  intro r c
  rw [drawn, Screen.draw_flips_iff hshort, Memory.length_of_readSlice hread, and_left_comm]
  apply and_congr_right
  intro hr
  rw [Memory.read_of_readSlice hread hr, Screen.inked]
  simp only [Except.ok.injEq, exists_eq_left']
  rfl

theorem read_flag_drawn (h : sprite.length ≤ 32) : (s.drawn x y sprite).registers.read 0xF =
    if ∃ (px : Fin 64) (py : Fin 32),
      (s.drawn x y sprite).screen.get px py ≠ s.screen.get px py ∧ s.screen.get px py
    then 1 else 0 := by
  rw [drawn, Registers.read_writeFlag_self]
  refine if_congr ((Screen.draw_collided h _ _ _).trans ?_) rfl rfl
  apply exists_congr
  intro px
  apply exists_congr
  intro py
  cases s.screen.get px py with
  | true => simp
  | false => simp

/-- A sprite is read at the index and drawn where two registers say, both as they are before `VF` is
written. It fails where memory ends, and then nothing is drawn. -/
theorem perform_draw (d : Dialect) (s : Core) {x y n : UInt8} (hx : x ≤ 15) (hy : y ≤ 15)
    (hn : n ≤ 15) :
    let t := s.perform d (.draw x y n)
    let r (py : Fin 32) := Screen.distance 32 (s.registers.read y).toNat py
    let c (px : Fin 64) := Screen.distance 64 (s.registers.read x).toNat px
    let flipped (px : Fin 64) (py : Fin 32) := t.next.screen.get px py ≠ s.screen.get px py
    (0x1000 < s.address + n.toNat → t = ⟨.error (.outOfBounds 0x1000), s, []⟩) ∧
    (s.address + n.toNat ≤ 0x1000 →
      t.answer = .ok .advanced ∧
      t.next = { s with screen := t.next.screen, registers := t.next.registers } ∧
      (∀ px py, flipped px py ↔ r py < n.toNat ∧ c px < 8 ∧
        ∃ row, s.memory.read (s.address + r py) = .ok row ∧ row.toNat.testBit (7 - c px)) ∧
      (t.next.registers.read 0xF = if ∃ px py, flipped px py ∧ s.screen.get px py then 1 else 0) ∧
      ∀ z < 15, t.next.registers.read z = s.registers.read z) := by
  intro t r c flipped
  refine ⟨perform_draw_of_lt hx hy, ?_⟩
  intro hin
  obtain ⟨sprite, hread⟩ : ∃ sprite, s.memory.readSlice s.address n.toNat = .ok sprite :=
    ⟨_, dif_pos hin⟩
  have hshort : sprite.length ≤ 32 :=
    (Memory.length_of_readSlice hread).trans_le (Nat.le_trans hn (by decide))
  have ht : t = ⟨.ok .advanced, s.drawn x y sprite, []⟩ := perform_draw_of_read hx hy hread
  have hnext : t.next = s.drawn x y sprite := congrArg Transition.next ht
  simp only [flipped, hnext]
  refine ⟨congrArg Transition.answer ht, rfl, ?_, ?_, ?_⟩
  · intro px py
    exact drawn_flips_iff hshort hread
  · exact read_flag_drawn hshort
  · intro z hz
    exact s.registers.read_writeFlag_of_ne _ (Nat.lt_trans hz (by decide)) (UInt8.ne_of_lt hz)

def wrapping (index : UInt16) : Core where
  registers := Registers.zero.write 0xF 63
  index
  random := .ofSeed 0
  screen := (Screen.blank.draw 2 0 [0x80]).1

theorem perform_draw_wrapping :
    let t := (wrapping 0).perform .chip48 (.draw 0xF 0xF 5)
    t.answer = .ok .advanced ∧ t.next.registers.read 0xF = 1 ∧
      t.next.screen.get 2 0 ≠ (wrapping 0).screen.get 2 0 ∧
      ((wrapping 0xFFFC).perform .chip48 (.draw 0xF 0xF 5)).answer =
        .error (.outOfBounds 0x1000) := by
  intro t
  have h (index : UInt16) := perform_draw .chip48 (wrapping index) (x := 0xF) (y := 0xF) (n := 5)
    (by decide) (by decide) (by decide)
  obtain ⟨hanswer, -, hflipped, hflag, -⟩ := (h 0).2 (by decide)
  have hrow : (wrapping 0).memory.read 1 = .ok 0x90 :=
    (dif_pos (by decide)).trans (congrArg Except.ok (Memory.getElem_initial (by decide)))
  have hflip := (hflipped 2 0).2 ⟨by decide, by decide, 0x90, hrow, by decide⟩
  have hset : (wrapping 0).screen.get 2 0 := by decide +kernel
  have hfault := (h 0xFFFC).1 (by decide)
  exact ⟨hanswer, hflag.trans (if_pos ⟨2, 0, hflip, hset⟩), hflip, congrArg (·.answer) hfault⟩

end Core

end Chip8
