namespace Chip8

/-- The low hexadecimal digit of a byte. Registers, keys and glyphs are sixteen each, and a byte
names them by this digit. -/
def lowDigit (b : UInt8) : Fin 16 := ⟨b.toNat % 16, Nat.mod_lt _ (by decide)⟩

def pick {α : Type} (things : Vector α 16) (b : UInt8) : α := things[lowDigit b]

def replace {α : Type} (things : Vector α 16) (b : UInt8) (a : α) : Vector α 16 :=
  things.set (lowDigit b) a

theorem pick_replace {α : Type} (things : Vector α 16) (b c : UInt8) (a : α) :
    pick (replace things b a) c = if lowDigit b = lowDigit c then a else pick things c := by
  simp [pick, replace, Vector.getElem_set, Fin.ext_iff]

theorem lowDigit_inj {b c : UInt8} (hb : b.toNat < 16) (hc : c.toNat < 16) :
    lowDigit b = lowDigit c ↔ b = c := by
  simp only [lowDigit, Fin.mk.injEq, Nat.mod_eq_of_lt hb, Nat.mod_eq_of_lt hc, UInt8.toNat_inj]

theorem lowDigit_le_iff {b c : UInt8} (hb : b.toNat < 16) (hc : c.toNat < 16) :
    lowDigit b ≤ lowDigit c ↔ b ≤ c := by
  simp only [lowDigit, Fin.mk_le_mk, Nat.mod_eq_of_lt hb, Nat.mod_eq_of_lt hc,
    UInt8.le_iff_toNat_le]

end Chip8
