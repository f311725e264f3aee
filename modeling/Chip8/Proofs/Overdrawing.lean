import Chip8.Proofs.Drawing

namespace Chip8

structure Stamp where
  x : Nat
  y : Nat
  sprite : List UInt8

def Stamp.cells (d : Stamp) : List (Fin 2048) := Screen.cells d.x d.y d.sprite

namespace Screen

variable {s t : Screen} {x y : Nat} {sprite : List UInt8} {ps qs : List (Fin 2048)}

def drawAll (s : Screen) : List Stamp → Screen × List Bool
  | [] => (s, [])
  | d :: ds =>
      let drawn := s.draw d.x d.y d.sprite
      let rest := drawn.1.drawAll ds
      (rest.1, drawn.2 :: rest.2)

theorem eq_of_get (h : ∀ p, s.pixels.get p = t.pixels.get p) : s = t := by
  obtain ⟨pixels⟩ := s
  obtain ⟨pixels'⟩ := t
  refine congrArg Screen.mk (Vector.ext ?_)
  intro k hk
  exact h ⟨k, hk⟩

theorem flipAll_perm (h : ps.Perm qs) (s : Screen) (collided : Bool) :
    s.flipAll collided ps = s.flipAll collided qs := by
  -- picture and collision are both read off the count of each pixel
  apply Prod.ext
  · apply eq_of_get
    intro p
    rw [get_flipAll, get_flipAll, h.count_eq]
  · rw [Bool.eq_iff_iff, flipAll_collided, flipAll_collided]
    simp only [h.count_eq]

theorem flipAll_append (s : Screen) (collided : Bool) (ps qs : List (Fin 2048)) :
    s.flipAll collided (ps ++ qs) =
      (s.flipAll collided ps).1.flipAll (s.flipAll collided ps).2 qs := by
  induction ps generalizing s collided with
  | nil => rfl
  | cons p ps ih => rw [List.cons_append, flipAll, flipAll, ih]

theorem flipAll_eq (s : Screen) (collided : Bool) (ps : List (Fin 2048)) :
    s.flipAll collided ps = ((s.flipAll false ps).1, collided || (s.flipAll false ps).2) := by
  apply Prod.ext
  · apply eq_of_get
    intro p
    rw [get_flipAll, get_flipAll]
  · rw [Bool.eq_iff_iff, Bool.or_eq_true, flipAll_collided, flipAll_collided,
      or_iff_right Bool.false_ne_true]

theorem flipAll_stamps (s : Screen) (collided : Bool) (ds : List Stamp) :
    s.flipAll collided (ds.flatMap Stamp.cells) =
      ((s.drawAll ds).1, collided || (s.drawAll ds).2.or) := by
  induction ds generalizing s collided with
  | nil => simp [flipAll, drawAll]
  | cons d ds ih =>
      rw [List.flatMap_cons, flipAll_append, flipAll_eq s, ih, Bool.or_assoc]
      rfl

/-- Sprites come to the same picture in any order, and one of them collides in each order or in
none. Which one, and how many, does depend on the order. -/
theorem drawAll_perm :
    (∀ (s : Screen) (ds es : List Stamp), ds.Perm es →
      (s.drawAll ds).1 = (s.drawAll es).1 ∧ (s.drawAll ds).2.or = (s.drawAll es).2.or) ∧
    ∃ (s : Screen) (ds es : List Stamp), ds.Perm es ∧
      ¬ (s.drawAll ds).2.Perm (s.drawAll es).2 := by
  constructor
  · intro s ds es h
    have hcells := flipAll_perm (h.flatMap_right Stamp.cells) s false
    rw [flipAll_stamps, flipAll_stamps, Prod.mk.injEq, Bool.false_or, Bool.false_or] at hcells
    exact hcells
  · -- a bar and each of its two halves
    refine ⟨blank, [⟨0, 0, [0xC0]⟩, ⟨0, 0, [0x80]⟩, ⟨1, 0, [0x80]⟩],
      [⟨0, 0, [0x80]⟩, ⟨1, 0, [0x80]⟩, ⟨0, 0, [0xC0]⟩], ?_, ?_⟩
    · exact (List.perm_append_singleton _ [_, _]).symm
    · decide +kernel

def overlapping : List Stamp :=
  -- over a corner, back to its own first row, and past the edges
  [⟨63, 31, [0xC0, 0xC0]⟩, ⟨0, 0, List.replicate 33 0x80⟩, ⟨128, 64, [0xFF]⟩]

theorem drawAll_perm_overlapping :
    overlapping.reverse.Perm overlapping ∧
    (blank.drawAll overlapping.reverse).1 = (blank.drawAll overlapping).1 ∧
    (blank.drawAll overlapping.reverse).2.or = true := by
  have hperm : overlapping.reverse.Perm overlapping := List.reverse_perm _
  obtain ⟨hpicture, hcollided⟩ := drawAll_perm.1 blank _ _ hperm
  have hfirst : (blank.drawAll overlapping).2.or = true := by decide +kernel
  exact ⟨hperm, hpicture, hcollided.trans hfirst⟩

theorem draw_draw_restores (s : Screen) (x y : Nat) (sprite : List UInt8) :
    ((s.draw x y sprite).1.draw x y sprite).1 = s := by
  apply eq_of_get
  intro p
  rw [draw, get_flipAll, draw, get_flipAll, Bool.xor_assoc, Bool.xor_self, Bool.xor_false]

theorem nodup_cells (h : sprite.length ≤ 32) (x y : Nat) : (cells x y sprite).Nodup := by
  rw [cells_eq_map]
  apply (nodup_strokes sprite).map_on
  rintro ⟨dx, dy⟩ hc ⟨dx', dy'⟩ hc' heq
  rw [mem_strokes] at hc hc'
  simp only [position, Fin.mk.injEq] at heq
  rw [Prod.mk.injEq]
  omega

theorem flipAll_flips_iff (h : ps.Nodup) (s : Screen) (collided : Bool) (p : Fin 2048) :
    (s.flipAll collided ps).1.pixels.get p ≠ s.pixels.get p ↔ p ∈ ps := by
  have hcount : ps.count p ≤ 1 := List.nodup_iff_count_le_one.1 h p
  rw [get_flipAll, ← List.one_le_count_iff]
  by_cases hodd : ps.count p % 2 = 1
  · rw [decide_eq_true hodd, Bool.xor_true]
    exact iff_of_true (Bool.not_ne_self _) (by omega)
  · rw [decide_eq_false hodd, Bool.xor_false]
    exact iff_of_false (fun hne => hne rfl) (by omega)

theorem flipAll_collided_of_nodup (h : ps.Nodup) (s : Screen) : (s.flipAll false ps).2 ↔
    ∃ p, s.pixels.get p ∧ ¬ (s.flipAll false ps).1.pixels.get p := by
  rw [flipAll_collided, or_iff_right Bool.false_ne_true]
  apply exists_congr
  intro p
  have hcount : ps.count p ≤ 1 := List.nodup_iff_count_le_one.1 h p
  have hflips := flipAll_flips_iff h s false p
  rw [flipsToHit]
  cases hp : s.pixels.get p with
  | true =>
      rw [hp, ← List.one_le_count_iff] at hflips
      rw [if_pos rfl, ← hflips]
      exact (and_iff_right rfl).symm
  | false =>
      rw [if_neg Bool.false_ne_true]
      exact iff_of_false (by omega) (fun h => Bool.false_ne_true h.1)

theorem draw_collided (h : sprite.length ≤ 32) (s : Screen) (x y : Nat) :
    (s.draw x y sprite).2 ↔ ∃ (px : Fin 64) (py : Fin 32),
      s.get px py ∧ ¬ (s.draw x y sprite).1.get px py :=
  (flipAll_collided_of_nodup (nodup_cells h x y) s).trans exists_position

/-- A sprite that is drawn twice is gone. As long as it comes to no place twice, the second time it
collides where it was drawn on unset pixels, the first time where on set ones. -/
theorem draw_draw (s : Screen) (x y : Nat) (sprite : List UInt8) :
    let first := s.draw x y sprite
    let second := first.1.draw x y sprite
    second.1 = s ∧
    (sprite.length ≤ 32 →
      (second.2 ↔ ∃ (px : Fin 64) (py : Fin 32), ¬ s.get px py ∧ first.1.get px py) ∧
      (first.2 ↔ ∃ (px : Fin 64) (py : Fin 32), s.get px py ∧ ¬ first.1.get px py)) := by
  intro first second
  have hrestored : second.1 = s := draw_draw_restores s x y sprite
  refine ⟨hrestored, ?_⟩
  intro h
  constructor
  · -- what the second drawing unsets is what the first has set
    have hsecond := draw_collided h first.1 x y
    rw [show (first.1.draw x y sprite).1 = s from hrestored] at hsecond
    simpa only [and_comm] using hsecond
  · exact draw_collided h s x y

-- One row more than the screen has, and there is a collision where no pixel was set.
example : (blank.draw 0 0 (0x80 :: List.replicate 31 0 ++ [0x80])).2 = true := by decide +kernel

def cornered : Screen := (blank.draw 0 0 [0x80]).1

theorem draw_draw_cornered :
    let first := cornered.draw 63 31 [0xC0, 0xC0]
    let second := first.1.draw 63 31 [0xC0, 0xC0]
    second.1 = cornered ∧ second.2 = true ∧ first.2 = true := by
  intro first second
  have h := draw_draw cornered 63 31 [0xC0, 0xC0]
  have hcollided := h.2 (by decide)
  refine ⟨h.1, hcollided.1.2 ⟨63, 0, ?_⟩, hcollided.2.2 ⟨0, 0, ?_⟩⟩
  · decide +kernel
  · decide +kernel

end Screen

end Chip8
