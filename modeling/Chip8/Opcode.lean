namespace Chip8

/-- A word as it is fetched from memory, two bytes with the high one first. -/
abbrev Opcode := UInt16

namespace Opcode

def ofBytes (high low : UInt8) : Opcode := 0x100 * high.toUInt16 + low.toUInt16

def highByte (w : Opcode) : UInt8 := (w / 0x100).toUInt8

def family (w : Opcode) : UInt8 := (w / 0x1000).toUInt8

def x (w : Opcode) : UInt8 := (w / 0x100 % 0x10).toUInt8

def y (w : Opcode) : UInt8 := (w / 0x10 % 0x10).toUInt8

def n (w : Opcode) : UInt8 := (w % 0x10).toUInt8

def nn (w : Opcode) : UInt8 := (w % 0x100).toUInt8

def nnn (w : Opcode) : UInt16 := w % 0x1000

theorem toNat_ofBytes (high low : UInt8) :
    (ofBytes high low).toNat = 0x100 * high.toNat + low.toNat := by
  have := high.toNat_lt; have := low.toNat_lt
  simp [ofBytes]; omega

end Opcode

end Chip8
