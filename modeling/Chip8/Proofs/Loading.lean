import Chip8.Proofs.Reserved

namespace Chip8.Memory

variable {m t : Memory} {p : Array UInt8} {offset a b k : Nat} {e : LoadError}

theorem load_of_le (hlow : 0x200 ≤ offset) (hhigh : offset + p.size ≤ 0x1000) :
    m.load p offset = .ok (m.overwrite p offset) := by
  rw [load, if_neg (by omega), if_neg (by omega)]

theorem load_eq_error_iff : m.load p offset = .error e ↔
    ((offset < 0x200 ∨ 0x1000 < offset) ∧ e = .invalidOffset offset) ∨
      (0x200 ≤ offset ∧ offset ≤ 0x1000 ∧ 0x1000 < offset + p.size ∧
        e = .tooLarge p.size (0x1000 - offset)) := by
  by_cases hoffset : offset < 0x200 ∨ 0x1000 < offset
  · have hload : m.load p offset = .error _ := if_pos hoffset
    have hout : ¬ (0x200 ≤ offset ∧ offset ≤ 0x1000) := by omega
    simp only [hload, Except.error.injEq, hoffset, true_and, ← and_assoc, hout, false_and, or_false,
      eq_comm]
  · have hin : 0x200 ≤ offset ∧ offset ≤ 0x1000 := by omega
    simp only [hoffset, false_and, false_or, hin, true_and]
    by_cases hsize : 0x1000 < offset + p.size
    · have hload : m.load p offset = .error (.tooLarge p.size (0x1000 - offset)) := by
        rw [load, if_neg hoffset, if_pos (by omega)]
      simp only [hload, Except.error.injEq, hsize, true_and, eq_comm]
    · simp only [load_of_le hin.1 (Nat.le_of_not_lt hsize), reduceCtorEq, hsize, false_and]

theorem exists_load_iff : (∃ t, m.load p offset = .ok t) ↔
    0x200 ≤ offset ∧ offset ≤ 0x1000 ∧ offset + p.size ≤ 0x1000 := by
  constructor
  · rintro ⟨t, ht⟩
    apply Decidable.byContradiction
    intro hout
    have herror : ∃ e, m.load p offset = .error e := by
      by_cases hoffset : offset < 0x200 ∨ 0x1000 < offset
      · exact ⟨_, load_eq_error_iff.2 (.inl ⟨hoffset, rfl⟩)⟩
      · exact ⟨_, load_eq_error_iff.2 (.inr ⟨by omega, by omega, by omega, rfl⟩)⟩
    obtain ⟨e, he⟩ := herror
    cases ht.symm.trans he
  · rintro ⟨hlow, -, hhigh⟩
    exact ⟨_, load_of_le hlow hhigh⟩

/-! A memory that has been overwritten, below the program, in it and behind it. -/

theorem read_overwrite_of_lt (h : a < offset) : (m.overwrite p offset).read a = m.read a := by
  rw [read, read]
  split
  · rw [getElem_overwrite, if_pos h]
  · rfl

theorem read_overwrite_program (h : offset + p.size ≤ 0x1000) (hk : k < p.size) :
    (m.overwrite p offset).read (offset + k) = .ok p[k] := by
  rw [read_of_lt (by omega), getElem_overwrite, if_neg (Nat.not_lt.2 (Nat.le_add_right offset k)),
    Nat.add_sub_cancel_left, Array.getD_eq_getD_getElem?, Array.getElem?_eq_getElem hk,
    Option.getD_some]

theorem read_overwrite_behind (h : offset + p.size ≤ a) (ha : a < 0x1000) :
    (m.overwrite p offset).read a = .ok 0 := by
  rw [read_of_lt ha, getElem_overwrite, if_neg (by omega), Array.getD_eq_getD_getElem?,
    Array.getElem?_eq_none (by omega), Option.getD_none]

theorem overwrite_congr (h : ∀ a < offset, m.read a = t.read a) :
    m.overwrite p offset = t.overwrite p offset := by
  apply eq_of_read
  intro b
  by_cases hb : b < offset
  · rw [read_overwrite_of_lt hb, read_overwrite_of_lt hb, h b hb]
  · rw [read, read]
    split
    · rw [getElem_overwrite, getElem_overwrite, if_neg hb, if_neg hb]
    · rfl

theorem edit_of_error (h : m.load p offset = .error e) : m.edit (.load p offset) = m := by
  rw [edit, h]
  rfl

theorem read_edit_load_of_lt (h : a < offset) : (m.edit (.load p offset)).read a = m.read a := by
  cases hload : m.load p offset with
  | error e => rw [edit_of_error hload]
  | ok t =>
      obtain ⟨-, rfl⟩ := load_eq_ok hload
      rw [edit, hload]
      exact read_overwrite_of_lt h

theorem load_congr (h : ∀ a < offset, m.read a = t.read a) :
    m.load p offset = t.load p offset := by
  rw [load, load, overwrite_congr h]

/-- A program is loaded iff it begins where programs may and ends inside memory. Then memory is as
it was below it, the program itself, and zeros up to the end; otherwise it is as it was, and the
error says what was wrong. So a load leaves no trace of one before it, done or refused, at the same
place or above. -/
theorem load_replaces (m : Memory) (p : Array UInt8) (offset : Nat) :
    ((∃ t, m.load p offset = .ok t) ↔
      0x200 ≤ offset ∧ offset ≤ 0x1000 ∧ offset + p.size ≤ 0x1000) ∧
    (∀ t, m.load p offset = .ok t →
      (∀ a < offset, t.read a = m.read a) ∧
      (∀ (k : Nat) (hk : k < p.size), t.read (offset + k) = .ok p[k]) ∧
      ∀ a, offset + p.size ≤ a → a ≤ 0xFFF → t.read a = .ok 0) ∧
    (∀ e, m.load p offset = .error e →
      m.edit (.load p offset) = m ∧
      e = if 0x200 ≤ offset ∧ offset ≤ 0x1000 then .tooLarge p.size (0x1000 - offset)
        else .invalidOffset offset) ∧
    ∀ (q : Array UInt8) (b : Nat), b ≤ offset →
      (m.edit (.load p offset)).load q b = m.load q b := by
  refine ⟨exists_load_iff, ?_, ?_, ?_⟩
  · intro t ht
    have hhigh := (exists_load_iff.1 ⟨t, ht⟩).2.2
    obtain ⟨-, rfl⟩ := load_eq_ok ht
    exact ⟨fun a => read_overwrite_of_lt, fun k => read_overwrite_program hhigh,
      fun a ha hle => read_overwrite_behind ha (Nat.lt_succ_of_le hle)⟩
  · intro e he
    refine ⟨edit_of_error he, ?_⟩
    obtain ⟨hoffset, rfl⟩ | ⟨hlow, hhigh, -, rfl⟩ := load_eq_error_iff.1 he
    · rw [if_neg (by omega)]
    · rw [if_pos ⟨hlow, hhigh⟩]
  · intro q b hb
    apply load_congr
    intro a ha
    exact read_edit_load_of_lt (Nat.lt_of_lt_of_le ha hb)

theorem load_replaces_longer : ∃ t u : Memory,
    initial.load #[1, 2, 3, 4] 0x200 = .ok t ∧ t.read 0x203 = .ok 4 ∧
      t.load #[9] 0x200 = .ok u ∧ u.read 0x200 = .ok 9 ∧ u.read 0x203 = .ok 0 ∧
      initial.load #[9] 0x200 = .ok u := by
  obtain ⟨hlong, hfilled, -, hagain⟩ := load_replaces initial #[1, 2, 3, 4] 0x200
  obtain ⟨t, ht⟩ := hlong.2 (by decide)
  obtain ⟨hshort, hcleared, -⟩ := load_replaces t #[9] 0x200
  obtain ⟨u, hu⟩ := hshort.2 (by decide)
  have hedit : initial.edit (.load #[1, 2, 3, 4] 0x200) = t := by
    rw [edit, ht]
    rfl
  have hsame := hagain #[9] 0x200 (Nat.le_refl _)
  rw [hedit, hu] at hsame
  exact ⟨t, u, ht, (hfilled t ht).2.1 3 (by decide), hu, (hcleared u hu).2.1 0 (by decide),
    (hcleared u hu).2.2 0x203 (by decide) (by decide), hsame.symm⟩

end Chip8.Memory
