import Chip8.Proofs.Feasibility

namespace Chip8

theorem decimalDigits_spec (n : UInt8) : (∀ digit ∈ decimalDigits n, digit ≤ 9) ∧
    100 * (n / 100).toNat + 10 * (n / 10 % 10).toNat + (n % 10).toNat = n.toNat := by
  have hn := n.toNat_lt
  simp only [decimalDigits, List.forall_mem_cons, List.not_mem_nil, false_imp_iff, implies_true,
    and_true, UInt8.le_iff_toNat_le, UInt8.toNat_div, UInt8.toNat_mod, UInt8.reduceToNat]
  omega

namespace Core

variable {d : Dialect} {s t u : Core} {x y : UInt8}

theorem memory_moveIndex (s : Core) (d : Dialect) (x : UInt8) :
    (s.moveIndex d x).memory = s.memory := by
  obtain ⟨index, h⟩ := s.moveIndex_eq d x
  rw [h]

theorem registers_moveIndex (s : Core) (d : Dialect) (x : UInt8) :
    (s.moveIndex d x).registers = s.registers := by
  obtain ⟨index, h⟩ := s.moveIndex_eq d x
  rw [h]

theorem toNat_index_moveIndex (hx : x.toNat < 16) (s : Core) (d : Dialect) :
    (s.moveIndex d x).index.toNat =
      if d.transferMovesIndex then (s.index.toNat + x.toNat + 1) % 0x10000 else s.index.toNat := by
  rw [moveIndex, Registers.countTo_eq hx]
  split
  · simp only [UInt16.toNat_add, UInt16.toNat_ofNat']
    omega
  · rfl

theorem load_of_store (ht : s.effect d (.store x) = .ok t) (hx : x.toNat < 16) (v : Registers) :
    ∃ u, { t with registers := v, index := s.index }.effect d (.load x) = .ok u ∧
      u.registers = v.fill 0 (s.registers.upTo x) := by
  obtain ⟨memory, hmemory, rfl⟩ := map_eq_ok_iff.1 ht
  have hread := Memory.readSlice_of_writeSlice hmemory
  rw [Registers.length_upTo hx, ← Registers.countTo_eq hx] at hread
  refine ⟨_, map_eq_ok_iff.2 ⟨s.registers.upTo x, ?_, rfl⟩, registers_moveIndex _ d x⟩
  rw [memory_moveIndex]
  exact hread

theorem store_of_load (ht : s.effect d (.load x) = .ok t)
    (hu : { t with index := s.index }.effect d (.store x) = .ok u) : u.memory = s.memory := by
  obtain ⟨values, hvalues, rfl⟩ := map_eq_ok_iff.1 ht
  obtain ⟨memory, hmemory, rfl⟩ := map_eq_ok_iff.1 hu
  rw [memory_moveIndex]
  rw [memory_moveIndex, registers_moveIndex,
    Registers.upTo_fill s.registers (Memory.length_of_readSlice hvalues)] at hmemory
  exact Memory.writeSlice_of_readSlice hvalues hmemory

theorem effect_store (ht : s.effect d (.store x) = .ok t) (hx : x.toNat < 16) :
    (∀ y ≤ x, t.memory.read (s.address + y.toNat) = .ok (s.registers.read y)) ∧
      (∀ b, b < s.address ∨ s.address + x.toNat < b → t.memory.read b = s.memory.read b) := by
  obtain ⟨memory, hmemory, rfl⟩ := map_eq_ok_iff.1 ht
  have hlen := Registers.length_upTo hx s.registers
  rw [memory_moveIndex]
  constructor
  · intro y hy
    have hyx : y.toNat ≤ x.toNat := hy
    have hlow : (lowDigit y).val = y.toNat := Nat.mod_eq_of_lt (by omega)
    rw [Memory.read_writeSlice_of_lt hmemory (by omega), ← hlow, Registers.getD_upTo,
      if_pos ((lowDigit_le_iff (by omega) hx).2 hy)]
  · intro b hb
    exact Memory.read_writeSlice_of_outside hmemory (by omega)

theorem effect_storeDecimal (ht : s.effect d (.storeDecimal x) = .ok t) :
    (∃ hundreds tens ones : UInt8, hundreds ≤ 9 ∧ tens ≤ 9 ∧ ones ≤ 9 ∧
      t.memory.read s.address = .ok hundreds ∧ t.memory.read (s.address + 1) = .ok tens ∧
      t.memory.read (s.address + 2) = .ok ones ∧
      100 * hundreds.toNat + 10 * tens.toNat + ones.toNat = (s.registers.read x).toNat) ∧
    (∀ b, b < s.address ∨ s.address + 2 < b → t.memory.read b = s.memory.read b) ∧
      t.index = s.index := by
  obtain ⟨memory, hmemory, rfl⟩ := map_eq_ok_iff.1 ht
  have hwritten {k : Nat} (hk : k < 3) := Memory.read_writeSlice_of_lt hmemory (k := k) hk
  obtain ⟨hdigits, hsum⟩ := decimalDigits_spec (s.registers.read x)
  simp only [decimalDigits, List.forall_mem_cons] at hdigits
  refine ⟨⟨_, _, _, hdigits.1, hdigits.2.1, hdigits.2.2.1, hwritten (k := 0) (by decide),
    hwritten (k := 1) (by decide), hwritten (k := 2) (by decide), hsum⟩, ?_, rfl⟩
  intro b hb
  exact Memory.read_writeSlice_of_outside hmemory hb

/-- Storing registers, loading them and storing the decimal digits of one, as transfers between the
registers and the bytes that the index points at. What a store has written a load brings back, and
the other way round; nothing is written but the span of the transfer, and nothing is changed by one
that fails. -/
theorem perform_transfer (d : Dialect) (s : Core) {x : UInt8} (hx : x ≤ 15) :
    let a := s.address
    let stored := s.perform d (.store x)
    let loaded := s.perform d (.load x)
    let decimal := s.perform d (.storeDecimal x)
    let reloaded (v : Registers) :=
      { stored.next with registers := v, index := s.index }.perform d (.load x)
    let restored := { loaded.next with index := s.index }.perform d (.store x)
    let moved : Nat :=
      if d.transferMovesIndex then (s.index.toNat + x.toNat + 1) % 0x10000 else s.index.toNat
    ((stored.answer.isOk ↔ 0x200 ≤ a ∧ a + x.toNat + 1 ≤ 0x1000) ∧
      (loaded.answer.isOk ↔ a + x.toNat + 1 ≤ 0x1000) ∧
      (decimal.answer.isOk ↔ 0x200 ≤ a ∧ a + 3 ≤ 0x1000)) ∧
    (stored.answer.isOk → stored.next.index.toNat = moved ∧
      (∀ y ≤ x, stored.next.memory.read (a + y.toNat) = .ok (s.registers.read y)) ∧
      ∀ v, (reloaded v).answer.isOk ∧ ∀ y ≤ 15,
        (reloaded v).next.registers.read y = if y ≤ x then s.registers.read y else v.read y) ∧
    (loaded.answer.isOk → loaded.next.index.toNat = moved ∧
      (restored.answer.isOk → restored.next.memory = s.memory)) ∧
    (decimal.answer.isOk → ∃ hundreds tens ones : UInt8, hundreds ≤ 9 ∧ tens ≤ 9 ∧ ones ≤ 9 ∧
      decimal.next.memory.read a = .ok hundreds ∧ decimal.next.memory.read (a + 1) = .ok tens ∧
      decimal.next.memory.read (a + 2) = .ok ones ∧
      100 * hundreds.toNat + 10 * tens.toNat + ones.toNat = (s.registers.read x).toNat) ∧
    (∀ b, b < a ∨ a + x.toNat < b → stored.next.memory.read b = s.memory.read b) ∧
    (∀ b, b < a ∨ a + 2 < b → decimal.next.memory.read b = s.memory.read b) ∧
    decimal.next.index = s.index ∧
    (¬ stored.answer.isOk → stored.next = s) ∧ (¬ loaded.answer.isOk → loaded.next = s) ∧
    (¬ decimal.answer.isOk → decimal.next = s) := by
  intro a stored loaded decimal reloaded restored moved
  have hx : x.toNat < 16 := Nat.lt_succ_of_le hx
  have hstore (s : Core) := Action.run_store (d := d) (s := s) hx
  have hload (s : Core) := Action.run_load (d := d) (s := s) hx
  have hdecimal := Action.run_storeDecimal (d := d) (s := s) hx
  refine ⟨⟨?_, ?_, ?_⟩, ?_, ?_, ?_, ?_, ?_, ?_, perform_next_of_not_isOk (hstore s),
    perform_next_of_not_isOk (hload s), perform_next_of_not_isOk hdecimal⟩
  · rw [isOk_perform (hstore s)]
    exact isOk_effect (i := .store x) hx
  · rw [isOk_perform (hload s)]
    exact isOk_effect (i := .load x) hx
  · rw [isOk_perform hdecimal]
    exact isOk_effect (i := .storeDecimal x) hx
  · intro hok
    have ht := effect_of_isOk (hstore s) hok
    refine ⟨?_, (effect_store ht hx).1, ?_⟩
    · obtain ⟨memory, -, hnext⟩ := map_eq_ok_iff.1 ht
      rw [← hnext]
      exact toNat_index_moveIndex hx _ d
    · intro v
      obtain ⟨u, hu, hregisters⟩ := load_of_store ht hx v
      have hreloaded : reloaded v = ⟨.ok .advanced, u, []⟩ :=
        (perform_of_outcome (hload _)).trans (by rw [hu]; rfl)
      rw [hreloaded]
      refine ⟨rfl, ?_⟩
      intro y hy
      rw [hregisters, Registers.read_fill_upTo,
        if_congr (lowDigit_le_iff (Nat.lt_succ_of_le hy) hx) rfl rfl]
  · intro hok
    have ht := effect_of_isOk (hload s) hok
    constructor
    · obtain ⟨values, -, hnext⟩ := map_eq_ok_iff.1 ht
      rw [← hnext]
      exact toNat_index_moveIndex hx _ d
    · intro hok'
      exact store_of_load ht (effect_of_isOk (hstore _) hok')
  · intro hok
    exact (effect_storeDecimal (effect_of_isOk hdecimal hok)).1
  · intro b hb
    exact perform_next_keeps (P := fun t => t.memory.read b = s.memory.read b) (hstore s) rfl
      fun t ht => (effect_store ht hx).2 b hb
  · intro b hb
    exact perform_next_keeps (P := fun t => t.memory.read b = s.memory.read b) hdecimal rfl
      fun t ht => (effect_storeDecimal ht).2.1 b hb
  · exact perform_next_keeps (P := fun t => t.index = s.index) hdecimal rfl
      fun t ht => (effect_storeDecimal ht).2.2

def topmost : Core where
  registers := Registers.zero.write 0xF 0xFE
  index := 0xFFF0
  random := .ofSeed 0

theorem perform_transfer_topmost :
    (topmost.perform .cosmacVip (.store 0xF)).next.index.toNat = 0 ∧
      (topmost.perform .cosmacVip (.store 0xF)).next.memory.read 0xFFF = .ok 0xFE ∧
      ({ (topmost.perform .cosmacVip (.store 0xF)).next with
        registers := .zero, index := topmost.index }.perform .cosmacVip
          (.load 0xF)).next.registers.read 0xF = 0xFE ∧
      ({ (topmost.perform .cosmacVip (.load 0xF)).next with index := topmost.index }.perform
        .cosmacVip (.store 0xF)).next.memory = topmost.memory ∧
      ∃ hundreds tens ones : UInt8, 100 * hundreds.toNat + 10 * tens.toNat + ones.toNat = 0xFE ∧
        (topmost.perform .cosmacVip (.storeDecimal 0xF)).next.memory.read 0xFF2 = .ok ones := by
  have hflag : topmost.registers.read 0xF = 0xFE := by decide
  have h (s : Core) := perform_transfer .cosmacVip s (x := 0xF) (by decide)
  obtain ⟨⟨hstored, hloaded, hdecimal⟩, hstore, hload, hdigits, -⟩ := h topmost
  obtain ⟨hindex, hbytes, hreloaded⟩ := hstore (hstored.2 (by decide))
  obtain ⟨hundreds, tens, ones, -, -, -, -, -, hones, hsum⟩ := hdigits (hdecimal.2 (by decide))
  refine ⟨hindex.trans (by decide), ?_, ?_, ?_,
    hundreds, tens, ones, hsum.trans (congrArg UInt8.toNat hflag), hones⟩
  · exact (hbytes 0xF (by decide)).trans (congrArg Except.ok hflag)
  · exact ((hreloaded .zero).2 0xF (by decide)).trans hflag
  · exact (hload (hloaded.2 (by decide))).2 ((h _).1.1.2 (by decide))

end Core

end Chip8
