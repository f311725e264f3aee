import Chip8.Proofs.Bounds
import Mathlib.Data.List.GetD

namespace Chip8

namespace Memory

variable {m t : Memory} {a b len k : Nat} {bytes values : List UInt8}

theorem exists_readSlice_iff : (∃ bytes, m.readSlice a len = .ok bytes) ↔ a + len ≤ 0x1000 := by
  constructor
  · rintro ⟨bytes, h⟩
    exact le_of_readSlice h
  · intro h
    exact ⟨_, dif_pos h⟩

theorem writeSlice_of_le (hlow : 0x200 ≤ a) (hhigh : a + values.length ≤ 0x1000) :
    m.writeSlice a values = .ok (m.put a values) := by
  rw [writeSlice, if_neg (Nat.not_lt_of_le hlow), if_neg (Nat.not_lt_of_le hhigh)]

theorem exists_writeSlice_iff :
    (∃ t, m.writeSlice a values = .ok t) ↔ 0x200 ≤ a ∧ a + values.length ≤ 0x1000 := by
  constructor
  · rintro ⟨t, h⟩
    exact le_of_writeSlice h
  · rintro ⟨hlow, hhigh⟩
    exact ⟨_, writeSlice_of_le hlow hhigh⟩

theorem eq_put_of_writeSlice (h : m.writeSlice a values = .ok t) : t = m.put a values := by
  obtain ⟨hlow, hhigh⟩ := le_of_writeSlice h
  cases h.symm.trans (writeSlice_of_le hlow hhigh)
  rfl

theorem length_of_readSlice (h : m.readSlice a len = .ok bytes) : bytes.length = len := by
  rw [readSlice, dif_pos (le_of_readSlice h), Except.ok.injEq] at h
  rw [← h, List.length_ofFn]

theorem read_of_readSlice (h : m.readSlice a len = .ok bytes) (hk : k < len) :
    m.read (a + k) = .ok (bytes.getD k 0) := by
  have hin := le_of_readSlice h
  rw [readSlice, dif_pos hin, Except.ok.injEq] at h
  rw [read, dif_pos (by omega), ← h, List.getD_eq_getElem _ _ (by rwa [List.length_ofFn]),
    List.getElem_ofFn]

theorem read_of_lt (h : a < 0x1000) : m.read a = .ok m.bytes[a] := dif_pos h

theorem eq_of_read (h : ∀ b, m.read b = t.read b) : m = t := by
  obtain ⟨bytes⟩ := m
  obtain ⟨bytes'⟩ := t
  refine congrArg Memory.mk (Vector.ext fun b hb => ?_)
  have hread := h b
  rwa [read_of_lt hb, read_of_lt hb, Except.ok.injEq] at hread

theorem read_writeSlice_of_lt (h : m.writeSlice a values = .ok t) (hk : k < values.length) :
    t.read (a + k) = .ok (values.getD k 0) := by
  have hin := (le_of_writeSlice h).2
  have hlt : a + k < 0x1000 := by omega
  rw [eq_put_of_writeSlice h, read_of_lt hlt, getElem_put, if_pos (Nat.le_add_right a k),
    Nat.add_sub_cancel_left, List.getD_eq_getElem _ _ hk, List.getD_eq_getElem _ _ hk]

theorem read_writeSlice_of_outside (h : m.writeSlice a values = .ok t)
    (hb : b < a ∨ a + values.length ≤ b) : t.read b = m.read b := by
  rw [eq_put_of_writeSlice h, read, read]
  split
  · rw [getElem_put]
    split
    · rw [List.getD_eq_default _ _ (by omega)]
    · rfl
  · rfl

theorem readSlice_of_writeSlice (h : m.writeSlice a values = .ok t) :
    t.readSlice a values.length = .ok values := by
  obtain ⟨bytes, hbytes⟩ := exists_readSlice_iff.2 (le_of_writeSlice h).2
  have hlen := length_of_readSlice hbytes
  rw [hbytes]
  refine congrArg Except.ok (List.ext_getElem hlen fun k hk hk' => ?_)
  have hread := read_of_readSlice hbytes hk'
  rwa [read_writeSlice_of_lt h hk', Except.ok.injEq, List.getD_eq_getElem _ _ hk,
    List.getD_eq_getElem _ _ hk', eq_comm] at hread

theorem writeSlice_of_readSlice (h : m.readSlice a len = .ok bytes)
    (ht : m.writeSlice a bytes = .ok t) : t = m := by
  apply eq_of_read
  intro b
  by_cases hb : b < a ∨ a + bytes.length ≤ b
  · exact read_writeSlice_of_outside ht hb
  · obtain ⟨k, rfl⟩ := Nat.exists_eq_add_of_le (Nat.le_of_not_lt (not_or.1 hb).1)
    have hk : k < bytes.length := by omega
    rw [read_writeSlice_of_lt ht hk, read_of_readSlice h (length_of_readSlice h ▸ hk)]

end Memory

namespace Registers

variable {x : UInt8} {values : List UInt8}

theorem getD_upTo (v : Registers) (x y b : UInt8) :
    (v.upTo x).getD (lowDigit y).val b = if lowDigit y ≤ lowDigit x then v.read y else b := by
  have hy : (lowDigit y).val < v.bytes.toList.length := by
    rw [Vector.length_toList]
    exact (lowDigit y).isLt
  rw [upTo, List.getD_eq_getElem?_getD, List.getElem?_take, apply_ite (Option.getD · b)]
  refine if_congr Nat.lt_succ_iff ?_ rfl
  rw [List.getElem?_eq_getElem hy, Option.getD_some, Vector.getElem_toList]
  rfl

theorem read_fill_upTo (v w : Registers) (x y : UInt8) :
    (v.fill 0 (w.upTo x)).read y = if lowDigit y ≤ lowDigit x then w.read y else v.read y := by
  rw [read_fill, if_neg (Nat.not_lt_zero _), Nat.sub_zero, getD_upTo]

theorem upTo_fill (v : Registers) (h : values.length = countTo x) :
    (v.fill 0 values).upTo x = values := by
  have hx : countTo x ≤ 16 := (lowDigit x).isLt
  apply List.ext_getElem
  · rw [upTo, List.length_take, Vector.length_toList, h, Nat.min_eq_left hx]
  · intro k hk hk'
    simp only [upTo, fill, List.getElem_take, Vector.getElem_toList, Vector.getElem_mapIdx,
      Nat.not_lt_zero, if_false, Nat.sub_zero, List.getD_eq_getElem _ _ hk']

end Registers

end Chip8
