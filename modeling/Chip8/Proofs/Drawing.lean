import Chip8.Screen
import Mathlib.Data.Finset.Prod
import Mathlib.Data.List.GetD
import Mathlib.Data.List.Nodup

namespace Chip8

namespace Screen

variable {s : Screen} {x y dx dy : Nat} {sprite : List UInt8} {ps : List (Fin 2048)}
  {p q : Fin 2048}

/-- Whether a sprite has its bit set so many columns and rows from its top left. -/
def inked (sprite : List UInt8) (dx dy : Nat) : Bool := (sprite.getD dy 0).toNat.testBit (7 - dx)

/-- How many set bits of a sprite fall on a pixel, its top left being drawn at `x` and `y`. -/
def strokesOn (x y : Nat) (sprite : List UInt8) (px py : Nat) : Nat :=
  ((Finset.range 8 ×ˢ Finset.range sprite.length).filter fun c =>
    inked sprite c.1 c.2 ∧ (x + c.1) % 64 = px ∧ (y + c.2) % 32 = py).card

theorem get_flip (s : Screen) (p q : Fin 2048) :
    (s.flip p).pixels.get q = if p = q then !s.pixels.get q else s.pixels.get q :=
  s.getElem_flip p q

def flipsToHit (s : Screen) (p : Fin 2048) : Nat := if s.pixels.get p then 1 else 2

theorem flipsToHit_flip_of_ne (h : p ≠ q) : (s.flip p).flipsToHit q = s.flipsToHit q := by
  rw [flipsToHit, flipsToHit, get_flip, if_neg h]

theorem flipsToHit_flip (hp : s.pixels.get p = false) :
    (s.flip p).flipsToHit p + 1 = s.flipsToHit p := by
  simp only [flipsToHit, get_flip, hp, if_true, Bool.not_false, Bool.false_eq_true, if_false]

theorem get_flipAll (s : Screen) (collided : Bool) (ps : List (Fin 2048)) (p : Fin 2048) :
    (s.flipAll collided ps).1.pixels.get p = (s.pixels.get p ^^ decide (ps.count p % 2 = 1)) := by
  induction ps generalizing s collided with
  | nil => simp [flipAll]
  | cons q ps ih =>
      rw [flipAll, ih, get_flip]
      by_cases h : q = p
      · subst h
        have hparity : ((ps.count q + 1) % 2 = 1) = ¬ ps.count q % 2 = 1 := by
          apply propext
          omega
        rw [if_pos rfl, List.count_cons_self, decide_eq_decide.2 (Iff.of_eq hparity), decide_not,
          Bool.xor_not, Bool.not_xor]
      · rw [if_neg h, List.count_cons_of_ne h]

/-- The order in which pixels are flipped has no say in whether one of them is found set. -/
theorem flipAll_collided (s : Screen) (collided : Bool) (ps : List (Fin 2048)) :
    (s.flipAll collided ps).2 ↔ collided ∨ ∃ p, s.flipsToHit p ≤ ps.count p := by
  induction ps generalizing s collided with
  | nil =>
      have hnone (p : Fin 2048) : ¬ s.flipsToHit p ≤ 0 := by
        rw [flipsToHit]
        split <;> omega
      simp only [flipAll, List.count_nil, hnone, exists_false, or_false]
  | cons q ps ih =>
      have hget : s.pixels[q] = s.pixels.get q := rfl
      rw [flipAll, ih, Bool.or_eq_true, or_assoc, hget]
      apply or_congr_right
      cases hq : s.pixels.get q with
      | true =>
          have hhit : s.flipsToHit q ≤ (q :: ps).count q := by
            rw [flipsToHit, hq, List.count_cons_self]
            exact Nat.le_add_left 1 _
          exact iff_of_true (.inl rfl) ⟨q, hhit⟩
      | false =>
          rw [or_iff_right Bool.false_ne_true]
          apply exists_congr
          intro p
          by_cases h : q = p
          · subst h
            rw [List.count_cons_self, ← flipsToHit_flip hq, Nat.add_le_add_iff_right]
          · rw [List.count_cons_of_ne h, flipsToHit_flip_of_ne h]

def strokes (sprite : List UInt8) : List (Nat × Nat) :=
  sprite.zipIdx.flatMap fun (row, dy) =>
    ((List.range 8).filter fun dx => row.toNat.testBit (7 - dx)).map fun dx => (dx, dy)

theorem cells_eq_map (x y : Nat) (sprite : List UInt8) :
    cells x y sprite = (strokes sprite).map fun c => position (x + c.1) (y + c.2) := by
  simp only [cells, strokes, List.map_flatMap, List.map_map]
  rfl

theorem mem_strokes : (dx, dy) ∈ strokes sprite ↔
    dx < 8 ∧ dy < sprite.length ∧ inked sprite dx dy := by
  simp only [strokes, List.mem_flatMap, List.mem_map, List.mem_filter, List.mem_range,
    Prod.mk.injEq, Prod.exists, List.mem_zipIdx_iff_getElem?]
  constructor
  · rintro ⟨row, dy, hrow, dx, ⟨hdx, hbit⟩, rfl, rfl⟩
    obtain ⟨hdy, rfl⟩ := List.getElem?_eq_some_iff.1 hrow
    refine ⟨hdx, hdy, ?_⟩
    rwa [inked, List.getD_eq_getElem _ _ hdy]
  · rintro ⟨hdx, hdy, hbit⟩
    rw [inked, List.getD_eq_getElem _ _ hdy] at hbit
    exact ⟨sprite[dy], dy, List.getElem?_eq_getElem hdy, dx, ⟨hdx, hbit⟩, rfl, rfl⟩

theorem nodup_strokes (sprite : List UInt8) : (strokes sprite).Nodup := by
  rw [strokes, List.nodup_flatMap]
  constructor
  · rintro ⟨row, dy⟩ -
    apply List.Nodup.map
    · intro dx dx' h
      exact congrArg Prod.fst h
    · exact List.nodup_range.filter _
  · have hrows : (sprite.zipIdx.map Prod.snd).Nodup := by
      rw [List.zipIdx_map_snd]
      exact List.nodup_range'
    apply (List.pairwise_map.1 hrows).imp
    rintro ⟨row, dy⟩ ⟨row', dy'⟩ hne c hc hc'
    obtain ⟨dx, -, rfl⟩ := List.mem_map.1 hc
    obtain ⟨dx', -, h⟩ := List.mem_map.1 hc'
    exact hne (congrArg Prod.snd h).symm

theorem position_eq_iff {px : Fin 64} {py : Fin 32} :
    position x y = position px py ↔ x % 64 = px ∧ y % 32 = py := by
  simp only [position, Fin.mk.injEq]
  omega

theorem count_cells (x y : Nat) (sprite : List UInt8) (px : Fin 64) (py : Fin 32) :
    (cells x y sprite).count (position px py) = strokesOn x y sprite px py := by
  have hmem : ((strokes sprite).filter fun c =>
        position (x + c.1) (y + c.2) == position px py).toFinset =
      (Finset.range 8 ×ˢ Finset.range sprite.length).filter fun c =>
        inked sprite c.1 c.2 ∧ (x + c.1) % 64 = px ∧ (y + c.2) % 32 = py := by
    ext ⟨dx, dy⟩
    simp only [List.mem_toFinset, List.mem_filter, mem_strokes, beq_iff_eq, position_eq_iff,
      Finset.mem_filter, Finset.mem_product, Finset.mem_range, and_assoc]
  rw [strokesOn, ← hmem, List.toFinset_card_of_nodup ((nodup_strokes sprite).filter _),
    cells_eq_map, List.count, List.countP_map, List.countP_eq_length_filter]
  rfl

theorem exists_position {P : Fin 2048 → Prop} :
    (∃ p, P p) ↔ ∃ (px : Fin 64) (py : Fin 32), P (position px py) := by
  constructor
  · rintro ⟨p, hp⟩
    have h : position (p.val % 64) (p.val / 64) = p := by
      apply Fin.ext
      simp only [position]
      omega
    exact ⟨⟨p.val % 64, by omega⟩, ⟨p.val / 64, by omega⟩, h ▸ hp⟩
  · rintro ⟨px, py, h⟩
    exact ⟨_, h⟩

theorem cells_mod (x y : Nat) (sprite : List UInt8) :
    cells (x % 64) (y % 32) sprite = cells x y sprite := by
  rw [cells_eq_map, cells_eq_map]
  apply List.map_congr_left
  intro c _
  simp only [position, Nat.mod_add_mod]

/-- A drawn sprite flips each pixel as often as set bits fall on it, and collides where one of them
finds its pixel set: the first that falls on a set pixel, the second on another. Rows beyond the
thirty-second come back to the first ones. -/
theorem draw_counted (s : Screen) (x y : Nat) (sprite : List UInt8) :
    let drawn := s.draw x y sprite
    (∀ (px : Fin 64) (py : Fin 32),
      drawn.1.get px py = (s.get px py ^^ decide (strokesOn x y sprite px py % 2 = 1))) ∧
    (drawn.2 ↔ ∃ (px : Fin 64) (py : Fin 32),
      (s.get px py ∧ 1 ≤ strokesOn x y sprite px py) ∨
        (¬ s.get px py ∧ 2 ≤ strokesOn x y sprite px py)) ∧
    s.draw (x % 64) (y % 32) sprite = drawn := by
  intro drawn
  refine ⟨?_, ?_, ?_⟩
  · intro px py
    rw [← count_cells]
    exact s.get_flipAll false (cells x y sprite) (position px py)
  · have hcollided := s.flipAll_collided false (cells x y sprite)
    rw [or_iff_right Bool.false_ne_true, exists_position] at hcollided
    apply hcollided.trans
    apply exists_congr
    intro px
    apply exists_congr
    intro py
    have hget : s.get px py = s.pixels.get (position px py) := rfl
    rw [count_cells, flipsToHit, hget]
    cases s.pixels.get (position px py) with
    | true => simp
    | false => simp
  · rw [draw, cells_mod]
    rfl

example : strokesOn 60 5 (List.replicate 33 0x08) 0 5 = 2 := by decide +kernel

end Screen

end Chip8
