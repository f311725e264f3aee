import Chip8.Instruction.Basic
import Chip8.Opcode

namespace Chip8

def Arithmetic.decode (n : UInt8) : Option Arithmetic :=
  match n.toNat with
  | 0x0 => some .copy
  | 0x1 => some .or
  | 0x2 => some .and
  | 0x3 => some .xor
  | 0x4 => some .add
  | 0x5 => some .sub
  | 0x6 => some .shiftRight
  | 0x7 => some .subFrom
  | 0xE => some .shiftLeft
  | _ => none

def Arithmetic.encode : Arithmetic → UInt16
  | .copy => 0x0
  | .or => 0x1
  | .and => 0x2
  | .xor => 0x3
  | .add => 0x4
  | .sub => 0x5
  | .shiftRight => 0x6
  | .subFrom => 0x7
  | .shiftLeft => 0xE

namespace Instruction

def decodeDevice (x nn : UInt8) : Option Instruction :=
  match nn.toNat with
  | 0x07 => some (.readDelay x)
  | 0x0A => some (.awaitKey x)
  | 0x15 => some (.setDelay x)
  | 0x18 => some (.setSound x)
  | 0x1E => some (.addIndex x)
  | 0x29 => some (.pointGlyph x)
  | 0x33 => some (.storeDecimal x)
  | 0x55 => some (.store x)
  | 0x65 => some (.load x)
  | _ => none

/-- Reading of an opcode. Some words are no instruction: what they mean is up to the machine that
meets one. A sprite has at least one row, so `DXY0` is among them. -/
def decode (w : Opcode) : Option Instruction :=
  match w.family.toNat with
  | 0x0 => some (if w.nnn = 0x0E0 then .clearScreen else if w.nnn = 0x0EE then .ret else .sys w.nnn)
  | 0x1 => some (.jump w.nnn)
  | 0x2 => some (.call w.nnn)
  | 0x3 => some (.skip (.holds w.x w.nn))
  | 0x4 => some (.skip (.lacks w.x w.nn))
  | 0x5 => if w.n = 0 then some (.skip (.equal w.x w.y)) else none
  | 0x6 => some (.setByte w.x w.nn)
  | 0x7 => some (.addByte w.x w.nn)
  | 0x8 => (Arithmetic.decode w.n).map (.combine · w.x w.y)
  | 0x9 => if w.n = 0 then some (.skip (.differ w.x w.y)) else none
  | 0xA => some (.setIndex w.nnn)
  | 0xB => some (.jumpOffset w.nnn)
  | 0xC => some (.random w.x w.nn)
  | 0xD => if w.n = 0 then none else some (.draw w.x w.y w.n)
  | 0xE =>
      if w.nn = 0x9E then some (.skip (.keyDown w.x))
      else if w.nn = 0xA1 then some (.skip (.keyUp w.x))
      else none
  | 0xF => decodeDevice w.x w.nn
  | _ => none

/-- Reading of an opcode that is given by its bytes, digit by digit in the order of the opcode
table. The first row that fits counts. -/
def ofBytes (high low : UInt8) : Option Instruction :=
  let x := high % 0x10
  let y := low / 0x10
  let n := low % 0x10
  let nnn : UInt16 := 0x100 * x.toUInt16 + low.toUInt16
  match (high / 0x10).toNat, x.toNat, y.toNat, n.toNat with
  | 0x0, 0x0, 0xE, 0x0 => some .clearScreen
  | 0x0, 0x0, 0xE, 0xE => some .ret
  | 0x0, _, _, _ => some (.sys nnn)
  | 0x1, _, _, _ => some (.jump nnn)
  | 0x2, _, _, _ => some (.call nnn)
  | 0x3, _, _, _ => some (.skip (.holds x low))
  | 0x4, _, _, _ => some (.skip (.lacks x low))
  | 0x5, _, _, 0x0 => some (.skip (.equal x y))
  | 0x6, _, _, _ => some (.setByte x low)
  | 0x7, _, _, _ => some (.addByte x low)
  | 0x8, _, _, 0x0 => some (.combine .copy x y)
  | 0x8, _, _, 0x1 => some (.combine .or x y)
  | 0x8, _, _, 0x2 => some (.combine .and x y)
  | 0x8, _, _, 0x3 => some (.combine .xor x y)
  | 0x8, _, _, 0x4 => some (.combine .add x y)
  | 0x8, _, _, 0x5 => some (.combine .sub x y)
  | 0x8, _, _, 0x6 => some (.combine .shiftRight x y)
  | 0x8, _, _, 0x7 => some (.combine .subFrom x y)
  | 0x8, _, _, 0xE => some (.combine .shiftLeft x y)
  | 0x9, _, _, 0x0 => some (.skip (.differ x y))
  | 0xA, _, _, _ => some (.setIndex nnn)
  | 0xB, _, _, _ => some (.jumpOffset nnn)
  | 0xC, _, _, _ => some (.random x low)
  | 0xD, _, _, 0x0 => none
  | 0xD, _, _, _ => some (.draw x y n)
  | 0xE, _, 0x9, 0xE => some (.skip (.keyDown x))
  | 0xE, _, 0xA, 0x1 => some (.skip (.keyUp x))
  | 0xF, _, 0x0, 0x7 => some (.readDelay x)
  | 0xF, _, 0x0, 0xA => some (.awaitKey x)
  | 0xF, _, 0x1, 0x5 => some (.setDelay x)
  | 0xF, _, 0x1, 0x8 => some (.setSound x)
  | 0xF, _, 0x1, 0xE => some (.addIndex x)
  | 0xF, _, 0x2, 0x9 => some (.pointGlyph x)
  | 0xF, _, 0x3, 0x3 => some (.storeDecimal x)
  | 0xF, _, 0x5, 0x5 => some (.store x)
  | 0xF, _, 0x6, 0x5 => some (.load x)
  | _, _, _, _ => none

def fillX (template : UInt16) (x : UInt8) : Opcode := template + 0x100 * x.toUInt16

def fillXY (template : UInt16) (x y : UInt8) : Opcode := fillX template x + 0x10 * y.toUInt16

def fillXNN (template : UInt16) (x nn : UInt8) : Opcode := fillX template x + nn.toUInt16

def encode : Instruction → Opcode
  | .sys a => a
  | .clearScreen => 0x00E0
  | .ret => 0x00EE
  | .jump a => 0x1000 + a
  | .call a => 0x2000 + a
  | .skip (.holds x n) => fillXNN 0x3000 x n
  | .skip (.lacks x n) => fillXNN 0x4000 x n
  | .skip (.equal x y) => fillXY 0x5000 x y
  | .setByte x n => fillXNN 0x6000 x n
  | .addByte x n => fillXNN 0x7000 x n
  | .combine op x y => fillXY 0x8000 x y + op.encode
  | .skip (.differ x y) => fillXY 0x9000 x y
  | .setIndex a => 0xA000 + a
  | .jumpOffset a => 0xB000 + a
  | .random x mask => fillXNN 0xC000 x mask
  | .draw x y height => fillXY 0xD000 x y + height.toUInt16
  | .skip (.keyDown x) => fillX 0xE09E x
  | .skip (.keyUp x) => fillX 0xE0A1 x
  | .readDelay x => fillX 0xF007 x
  | .awaitKey x => fillX 0xF00A x
  | .setDelay x => fillX 0xF015 x
  | .setSound x => fillX 0xF018 x
  | .addIndex x => fillX 0xF01E x
  | .pointGlyph x => fillX 0xF029 x
  | .storeDecimal x => fillX 0xF033 x
  | .store x => fillX 0xF055 x
  | .load x => fillX 0xF065 x

end Instruction

end Chip8
