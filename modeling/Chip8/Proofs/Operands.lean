import Chip8.Instruction.Codec

namespace Chip8

namespace Opcode

variable (w : Opcode)

theorem toNat_family : w.family.toNat = w.toNat / 0x1000 := by
  have hw := w.toNat_lt
  simp only [family, UInt16.toNat_toUInt8, UInt16.toNat_div, UInt16.reduceToNat]
  omega

theorem toNat_x : w.x.toNat = w.toNat / 0x100 % 0x10 := by
  simp only [x, UInt16.toNat_toUInt8, UInt16.toNat_div, UInt16.toNat_mod, UInt16.reduceToNat]
  omega

theorem toNat_y : w.y.toNat = w.toNat / 0x10 % 0x10 := by
  simp only [y, UInt16.toNat_toUInt8, UInt16.toNat_div, UInt16.toNat_mod, UInt16.reduceToNat]
  omega

theorem toNat_n : w.n.toNat = w.toNat % 0x10 := by
  simp only [n, UInt16.toNat_toUInt8, UInt16.toNat_mod, UInt16.reduceToNat]
  omega

theorem toNat_nn : w.nn.toNat = w.toNat % 0x100 := by
  simp only [nn, UInt16.toNat_toUInt8, UInt16.toNat_mod, UInt16.reduceToNat]
  omega

theorem toNat_nnn : w.nnn.toNat = w.toNat % 0x1000 := by
  simp only [nnn, UInt16.toNat_mod, UInt16.reduceToNat]

theorem toNat_x_lt : w.x.toNat < 16 := by
  rw [w.toNat_x]
  omega

theorem toNat_y_lt : w.y.toNat < 16 := by
  rw [w.toNat_y]
  omega

theorem toNat_n_lt : w.n.toNat < 16 := by
  rw [w.toNat_n]
  omega

theorem toNat_nnn_lt : w.nnn.toNat < 0x1000 := by
  rw [w.toNat_nnn]
  omega

end Opcode

def Condition.InRange : Condition → Prop
  | .holds x _ | .lacks x _ | .keyDown x | .keyUp x => x.toNat < 16
  | .equal x y | .differ x y => x.toNat < 16 ∧ y.toNat < 16

namespace Instruction

/-- The operands are such as fit into an opcode. -/
def InRange : Instruction → Prop
  | .sys a | .jump a | .call a | .setIndex a | .jumpOffset a => a.toNat < 0x1000
  | .clearScreen | .ret => True
  | .skip c => c.InRange
  | .combine _ x y => x.toNat < 16 ∧ y.toNat < 16
  | .draw x y height => x.toNat < 16 ∧ y.toNat < 16 ∧ 0 < height.toNat ∧ height.toNat < 16
  | .setByte x _ | .addByte x _ | .random x _ | .readDelay x | .awaitKey x | .setDelay x
  | .setSound x | .addIndex x | .pointGlyph x | .storeDecimal x | .store x | .load x => x.toNat < 16

theorem decodeDevice_inRange {x nn : UInt8} (hx : x.toNat < 16) {i : Instruction}
    (h : decodeDevice x nn = some i) : i.InRange := by
  unfold decodeDevice at h
  split at h <;> cases h <;> exact hx

theorem decode_inRange {w : Opcode} {i : Instruction} (h : decode w = some i) : i.InRange := by
  have hx := w.toNat_x_lt
  have hy := w.toNat_y_lt
  have hn := w.toNat_n_lt
  have ha := w.toNat_nnn_lt
  -- one case for each family, in the order of its digit
  unfold decode at h
  split at h
  case h_1 =>
      cases h
      split
      · trivial
      · split
        · trivial
        · exact ha
  case h_2 | h_3 | h_11 | h_12 => cases h; exact ha
  case h_4 | h_5 | h_7 | h_8 | h_13 => cases h; exact hx
  case h_6 | h_10 =>
      split at h
      · cases h; exact ⟨hx, hy⟩
      · cases h
  case h_9 =>
      obtain ⟨op, -, rfl⟩ := Option.map_eq_some_iff.1 h
      exact ⟨hx, hy⟩
  case h_14 =>
      split at h
      · cases h
      · next h0 =>
        cases h
        have : w.n.toNat ≠ 0 := fun h => h0 (UInt8.toNat_inj.1 h)
        exact ⟨hx, hy, by omega, hn⟩
  case h_15 =>
      split at h
      · cases h; exact hx
      · split at h
        · cases h; exact hx
        · cases h
  case h_16 => exact decodeDevice_inRange hx h
  case h_17 => cases h

end Instruction

end Chip8
