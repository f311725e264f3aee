import Chip8.Proofs.Overdrawing

namespace Chip8

/-- Lines that hold no line end are told apart again when each is ended by one. -/
theorem splitOn_ended {α : Type} [BEq α] [LawfulBEq α] {lineEnd : α} {lines : List (List α)}
    (h : ∀ line ∈ lines, lineEnd ∉ line) :
    (lines.flatMap (· ++ [lineEnd])).splitOn lineEnd = lines ++ [[]] := by
  induction lines with
  | nil => exact List.splitOn_nil lineEnd
  | cons line lines ih =>
      obtain ⟨hline, hlines⟩ := List.forall_mem_cons.1 h
      rw [List.flatMap_cons, List.append_assoc, List.singleton_append,
        List.splitOn_append_cons_self_of_not_mem hline, ih hlines, List.cons_append]

theorem getElem?_flatMap_of_length {α β : Type} {f : α → List β} {width k : Nat}
    (hwidth : ∀ a, (f a).length = width) (hk : k < width) (as : List α) (n : Nat) :
    (as.flatMap f)[width * n + k]? = as[n]?.bind fun a => (f a)[k]? := by
  induction as generalizing n with
  | nil => rfl
  | cons a as ih =>
      rw [List.flatMap_cons]
      cases n with
      | zero =>
          rw [Nat.mul_zero, Nat.zero_add, List.getElem?_append_left (by rw [hwidth]; exact hk)]
          rfl
      | succ n =>
          have hskip : width * (n + 1) + k = (f a).length + (width * n + k) := by
            rw [hwidth, Nat.mul_succ]
            omega
          rw [hskip, List.getElem?_append_right (Nat.le_add_right _ _), Nat.add_sub_cancel_left, ih]
          rfl

namespace Screen

variable {s t : Screen} {x y : Nat} {P : Fin 2048 → Prop}

theorem forall_position : (∀ p, P p) ↔ ∀ (px : Fin 64) (py : Fin 32), P (position px py) := by
  simpa only [not_exists, not_not] using not_congr (exists_position (P := fun p => ¬ P p))

theorem ext_get_iff : s = t ↔ ∀ (px : Fin 64) (py : Fin 32), s.get px py = t.get px py := by
  constructor
  · rintro rfl px py
    rfl
  · intro h
    apply eq_of_get
    exact forall_position.2 h

theorem isBlank_iff : s.isBlank ↔ ∀ (px : Fin 64) (py : Fin 32), ¬ s.get px py := by
  have hall : s.isBlank ↔ ∀ p, ¬ s.pixels.get p := by
    simp only [isBlank, Vector.all_eq_true, Bool.not_eq_true', Bool.not_eq_true]
    exact ⟨fun h p => h p.val p.isLt, fun h k hk => h ⟨k, hk⟩⟩
  exact hall.trans forall_position

theorem mark_inj {a b : Bool} :
    (if a then '#' else ' ') = (if b then '#' else ' ') ↔ a = b := by
  cases a <;> cases b <;> decide

theorem length_row (s : Screen) (y : Nat) : (s.row y).length = 64 := by
  rw [row, List.length_map, List.length_range]

theorem getElem?_row (hx : x < 64) : (s.row y)[x]? = some (if s.get x y then '#' else ' ') := by
  rw [row, List.getElem?_map, List.getElem?_range hx]
  rfl

theorem newline_not_mem_row (s : Screen) (y : Nat) : '\n' ∉ s.row y := by
  rw [row, List.mem_map]
  rintro ⟨x, -, hx⟩
  split at hx
  · exact absurd hx (by decide)
  · exact absurd hx (by decide)

theorem toList_text (s : Screen) :
    s.text.toList = (List.range 32).flatMap fun y => s.row y ++ ['\n'] := String.toList_ofList

theorem splitOn_text (s : Screen) :
    s.text.toList.splitOn '\n' = (List.range 32).map s.row ++ [[]] := by
  rw [toList_text, ← splitOn_ended, List.flatMap_map]
  intro line hline
  obtain ⟨y, -, rfl⟩ := List.mem_map.1 hline
  exact newline_not_mem_row s y

theorem getElem?_text (s : Screen) (x y : Nat) :
    s.text.toList[65 * (y % 32) + x % 64]? = some (if s.get x y then '#' else ' ') := by
  have hx : x % 64 < 64 := Nat.mod_lt x (by decide)
  have hy : y % 32 < 32 := Nat.mod_lt y (by decide)
  have hget : s.get (x % 64) (y % 32) = s.get x y := by
    simp only [get, position, Nat.mod_mod]
  have hwidth (y : Nat) : (s.row y ++ ['\n']).length = 65 := by
    rw [List.length_append, length_row]
    rfl
  rw [toList_text, getElem?_flatMap_of_length hwidth (by omega), List.getElem?_range hy,
    Option.bind_some, List.getElem?_append_left (by rw [length_row]; exact hx), getElem?_row hx,
    hget]

theorem text_eq_iff : s.text = t.text ↔ s = t := by
  constructor
  · intro h
    rw [ext_get_iff]
    intro px py
    have hmark := s.getElem?_text px py
    rw [h, getElem?_text, Option.some.injEq] at hmark
    exact (mark_inj.1 hmark).symm
  · rintro rfl
    rfl

theorem mark_mem_text : '#' ∈ s.text.toList ↔ ∃ (px : Fin 64) (py : Fin 32), s.get px py := by
  constructor
  · intro h
    rw [toList_text, List.mem_flatMap] at h
    obtain ⟨y, hy, hmark⟩ := h
    rw [List.mem_append, or_iff_left (by decide), row, List.mem_map] at hmark
    obtain ⟨x, hx, hmark⟩ := hmark
    split at hmark
    next hget => exact ⟨⟨x, List.mem_range.1 hx⟩, ⟨y, List.mem_range.1 hy⟩, hget⟩
    next => exact absurd hmark (by decide)
  · rintro ⟨px, py, hget⟩
    have h := getElem?_text s px py
    rw [if_pos hget] at h
    exact List.mem_of_getElem? h

/-- The text of a screen shows it pixel by pixel, in thirty-two lines of sixty-four characters. So
the screen can be read back from it, each pixel at its place. -/
theorem text_faithful (s : Screen) :
    let lines := s.text.toList.splitOn '\n'
    (lines.length = 33 ∧ lines[32]? = some [] ∧
      ∀ y : Fin 32, ∃ marks, lines[y.val]? = some marks ∧ marks.length = 64 ∧
        ∀ x : Fin 64, marks[x.val]? = some (if s.get x y then '#' else ' ')) ∧
    (∀ t : Screen, (s.text = t.text ↔ s = t) ∧
      (s.text = t.text ↔ ∀ (px : Fin 64) (py : Fin 32), s.get px py = t.get px py)) ∧
    (s.isBlank ↔ '#' ∉ s.text.toList) ∧
    ∀ x y : Nat,
      s.text.toList[65 * (y % 32) + x % 64]? = some (if s.get x y then '#' else ' ') := by
  intro lines
  refine ⟨?_, ?_, ?_, s.getElem?_text⟩
  · have hlines : lines = (List.range 32).map s.row ++ [[]] := s.splitOn_text
    rw [hlines]
    refine ⟨by simp, by simp, ?_⟩
    intro y
    refine ⟨s.row y, ?_, s.length_row y, ?_⟩
    · rw [List.getElem?_append_left (by simp), List.getElem?_map, List.getElem?_range y.isLt]
      rfl
    · intro x
      exact getElem?_row x.isLt
  · intro t
    exact ⟨text_eq_iff, text_eq_iff.trans ext_get_iff⟩
  · rw [mark_mem_text, isBlank_iff]
    simp only [not_exists]

end Screen

end Chip8
