import Chip8.Proofs.Reserved

namespace Chip8.Memory

variable {m t : Memory} {a len : Nat} {value : UInt8} {values bytes : List UInt8} {f : Fault}

def writeEach (m : Memory) (a : Nat) (values : List UInt8) : Except Fault Memory :=
  (values.zipIdx a).foldlM (fun t entry => t.write entry.2 entry.1) m

def readEach (m : Memory) (a len : Nat) : Except Fault (List UInt8) :=
  (List.range' a len).mapM m.read

theorem writeEach_cons : m.writeEach a (value :: values) =
    (m.write a value).bind (·.writeEach (a + 1) values) := by
  rw [writeEach, List.zipIdx_cons, List.foldlM_cons]
  rfl

theorem readEach_succ : m.readEach a (len + 1) =
    (m.read a).bind fun b => (m.readEach (a + 1) len).map (b :: ·) := by
  rw [readEach, List.range'_succ, List.mapM_cons]
  rfl

theorem write_of_le (hlow : 0x200 ≤ a) (hhigh : a < 0x1000) :
    m.write a value = .ok (m.put a [value]) := by
  have hset : m.bytes.set a value = m.bytes.setIfInBounds a value := by
    apply Vector.ext
    intro b hb
    rw [Vector.getElem_set, Vector.getElem_setIfInBounds]
  rw [write, if_neg (Nat.not_lt_of_le hlow), dif_pos hhigh, hset]
  rfl

theorem write_of_ge (h : 0x1000 ≤ a) : m.write a value = .error (.outOfBounds a) := by
  rw [write, if_neg (by omega), dif_neg (Nat.not_lt_of_le h)]

theorem read_of_ge (h : 0x1000 ≤ a) : m.read a = .error (.outOfBounds a) :=
  dif_neg (Nat.not_lt_of_le h)

/-! Inside memory, a slice is its first byte and then the slice behind it. -/

theorem writeSlice_cons (hlow : 0x200 ≤ a) (hhigh : a < 0x1000) :
    m.writeSlice a (value :: values) = (m.write a value).bind (·.writeSlice (a + 1) values) := by
  have hlow' : ¬ a + 1 < 0x200 := by omega
  rw [write_of_le hlow hhigh, writeSlice, if_neg (Nat.not_lt_of_le hlow), List.length_cons,
    Except.bind, writeSlice, if_neg hlow', Nat.add_assoc, Nat.add_comm 1]
  by_cases hend : 0x1000 < a + (values.length + 1)
  · rw [if_pos hend, if_pos hend, Nat.max_eq_right (Nat.le_of_lt hhigh), Nat.max_eq_right hhigh]
  · rw [if_neg hend, if_neg hend]
    rfl

theorem readSlice_succ (h : a < 0x1000) : m.readSlice a (len + 1) =
    (m.read a).bind fun b => (m.readSlice (a + 1) len).map (b :: ·) := by
  rw [read_of_lt h, Except.bind, readSlice, readSlice]
  by_cases hend : a + (len + 1) ≤ 0x1000
  · have hend' : a + 1 + len ≤ 0x1000 := by omega
    rw [dif_pos hend, dif_pos hend', List.ofFn_succ]
    simp only [Except.map, Fin.val_zero, Fin.val_succ, Nat.add_zero, Nat.add_assoc, Nat.add_comm 1]
  · have hend' : ¬ a + 1 + len ≤ 0x1000 := by omega
    rw [dif_neg hend, dif_neg hend', Nat.max_eq_right (Nat.le_of_lt h), Nat.max_eq_right h]
    rfl

/-- From the first program byte on, writing byte by byte is writing the slice, except that an empty
slice has no byte to be refused. -/
theorem writeEach_eq_of_le (hlow : 0x200 ≤ a) (h : values ≠ [] ∨ a ≤ 0x1000) :
    m.writeEach a values = m.writeSlice a values := by
  induction values generalizing m a with
  | nil =>
      have hend : a + ([] : List UInt8).length ≤ 0x1000 := h.resolve_left fun hne => hne rfl
      exact (writeSlice_of_le hlow hend).symm
  | cons value values ih =>
      rw [writeEach_cons]
      by_cases hhigh : a < 0x1000
      · rw [writeSlice_cons hlow hhigh]
        congr 1
        funext t
        exact ih (Nat.le_succ_of_le hlow) (.inr hhigh)
      · have ha : 0x1000 ≤ a := Nat.le_of_not_lt hhigh
        have hend : 0x1000 < a + (values.length + 1) := by omega
        have hrefused : m.writeSlice a (value :: values) = .error (.outOfBounds a) :=
          writeSlice_eq_error_iff.2 (.inr ⟨hlow, hend, by rw [Nat.max_eq_left ha]⟩)
        rw [write_of_ge ha, hrefused]
        rfl

theorem writeSlice_eq_writeEach (h : values ≠ []) :
    m.writeSlice a values = m.writeEach a values := by
  by_cases hlow : a < 0x200
  · obtain ⟨value, values, rfl⟩ := List.exists_cons_of_ne_nil h
    rw [writeEach_cons, write, if_pos hlow, writeSlice, if_pos hlow]
    rfl
  · exact (writeEach_eq_of_le (Nat.le_of_not_lt hlow) (.inl h)).symm

theorem readEach_eq (h : 0 < len ∨ a ≤ 0x1000) : m.readEach a len = m.readSlice a len := by
  induction len generalizing a with
  | zero =>
      have hend : a + 0 ≤ 0x1000 := h.resolve_left (Nat.lt_irrefl 0)
      rw [readSlice, dif_pos hend, List.ofFn_zero]
      rfl
  | succ len ih =>
      rw [readEach_succ]
      by_cases hhigh : a < 0x1000
      · rw [readSlice_succ hhigh, ih (.inr hhigh)]
      · have ha : 0x1000 ≤ a := Nat.le_of_not_lt hhigh
        have hrefused : m.readSlice a (len + 1) = .error (.outOfBounds a) :=
          readSlice_eq_error_iff.2 ⟨by omega, by rw [Nat.max_eq_left ha]⟩
        rw [read_of_ge ha, hrefused]
        rfl

theorem fault_of_write (h : m.write a value = .error f) :
    f = .protectedWrite a ∨ f = .outOfBounds a := by
  rw [write] at h
  split at h
  · cases h
    exact .inl rfl
  · split at h
    · cases h
    · cases h
      exact .inr rfl

theorem fault_of_read (h : m.read a = .error f) : f = .outOfBounds a := by
  rw [read] at h
  split at h
  · cases h
  · cases h
    rfl

theorem exists_refused_write (h : m.writeEach a values = .error f) :
    ∃ k value t, values[k]? = some value ∧
      m.writeEach a (values.take k) = .ok t ∧ t.write (a + k) value = .error f := by
  induction values generalizing m a with
  | nil => cases h
  | cons value values ih =>
      rw [writeEach_cons] at h
      cases hfirst : m.write a value with
      | error g =>
          rw [hfirst] at h
          cases h
          exact ⟨0, value, m, rfl, rfl, hfirst⟩
      | ok n =>
          rw [hfirst] at h
          obtain ⟨k, last, t, hlast, hbefore, hrefused⟩ := ih h
          refine ⟨k + 1, last, t, hlast, ?_, ?_⟩
          · rw [List.take_succ_cons, writeEach_cons, hfirst]
            exact hbefore
          · rw [Nat.add_comm k, ← Nat.add_assoc]
            exact hrefused

theorem exists_refused_read (h : m.readEach a len = .error f) :
    ∃ k < len, (∃ bytes, m.readEach a k = .ok bytes) ∧ m.read (a + k) = .error f := by
  induction len generalizing a with
  | zero => cases h
  | succ len ih =>
      rw [readEach_succ] at h
      cases hfirst : m.read a with
      | error g =>
          rw [hfirst] at h
          cases h
          exact ⟨0, Nat.succ_pos _, ⟨[], rfl⟩, hfirst⟩
      | ok b =>
          rw [hfirst] at h
          obtain ⟨k, hk, ⟨bytes, hbefore⟩, hrefused⟩ := ih (map_eq_error_iff.1 h)
          refine ⟨k + 1, Nat.succ_lt_succ hk, ⟨b :: bytes, ?_⟩, ?_⟩
          · rw [readEach_succ, hfirst, Except.bind, hbefore]
            rfl
          · rw [Nat.add_comm k, ← Nat.add_assoc]
            exact hrefused

/-- A slice is its bytes one by one, all or none: it is written, or read, just as its bytes would be
in turn, and if one of them is refused it answers the fault of the first of these and leaves memory
as it was. -/
theorem slices_bytewise (m : Memory) (a : Nat) :
    (∀ values ≠ [], m.writeSlice a values = m.writeEach a values ∧
      ∀ f, m.writeSlice a values = .error f →
        m.edit (.writeSlice a values) = m ∧
        ∃ k value t, values[k]? = some value ∧
          m.writeEach a (values.take k) = .ok t ∧ t.write (a + k) value = .error f ∧
          (f = .protectedWrite (a + k) ∨ f = .outOfBounds (a + k))) ∧
    ∀ len, 1 ≤ len → m.readSlice a len = m.readEach a len ∧
      ∀ f, m.readSlice a len = .error f →
        ∃ k < len, (∃ bytes, m.readEach a k = .ok bytes) ∧
          m.read (a + k) = .error f ∧ f = .outOfBounds (a + k) := by
  constructor
  · intro values hne
    have heach := writeSlice_eq_writeEach (m := m) (a := a) hne
    refine ⟨heach, ?_⟩
    intro f hf
    obtain ⟨k, value, t, hvalue, hbefore, hrefused⟩ := exists_refused_write (heach ▸ hf)
    refine ⟨?_, k, value, t, hvalue, hbefore, hrefused, fault_of_write hrefused⟩
    rw [edit, hf]
    rfl
  · intro len hlen
    have heach : m.readEach a len = m.readSlice a len := readEach_eq (.inl hlen)
    refine ⟨heach.symm, ?_⟩
    intro f hf
    obtain ⟨k, hk, hbefore, hrefused⟩ := exists_refused_read (heach.trans hf)
    exact ⟨k, hk, hbefore, hrefused, fault_of_read hrefused⟩

theorem slices_bytewise_overrunning :
    initial.writeSlice 0xFFE [1, 2, 3] = .error (.outOfBounds 0x1000) ∧
      initial.writeEach 0xFFE [1, 2, 3] = .error (.outOfBounds 0x1000) ∧
      initial.edit (.writeSlice 0xFFE [1, 2, 3]) = initial ∧
      initial.readEach 0xFFE 3 = .error (.outOfBounds 0x1000) := by
  obtain ⟨hwrite, hread⟩ := slices_bytewise initial 0xFFE
  obtain ⟨heach, hrefused⟩ := hwrite [1, 2, 3] nofun
  have hf : initial.writeSlice 0xFFE [1, 2, 3] = .error (.outOfBounds 0x1000) := by
    apply writeSlice_eq_error_iff.2
    decide
  refine ⟨hf, heach ▸ hf, (hrefused _ hf).1, ?_⟩
  rw [← (hread 3 (by decide)).1]
  apply readSlice_eq_error_iff.2
  decide

end Chip8.Memory
