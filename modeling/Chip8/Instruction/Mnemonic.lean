import Chip8.Instruction.Basic
import Chip8.Text.Hex

namespace Chip8

inductive Operand
  | register (x : UInt8)
  | byte (n : UInt8)
  | address (a : UInt16)
  | height (n : UInt8)
  | index
  | pointed
  | delayTimer
  | soundTimer
  | key
  | glyph
  | decimal
  deriving DecidableEq, Repr

def registerName (x : UInt8) : String := "V" ++ Text.upperHex 1 x.toNat

def Operand.text : Operand → String
  | .register x => registerName x
  | .byte n => Text.prefixedHex 2 n.toNat
  | .address a => Text.prefixedHex 3 a.toNat
  | .height n => n.toNat.repr
  | .index => "I"
  | .pointed => "[I]"
  | .delayTimer => "DT"
  | .soundTimer => "ST"
  | .key => "K"
  | .glyph => "F"
  | .decimal => "B"

structure Mnemonic where
  word : String
  operands : List Operand
  deriving DecidableEq, Repr

def Mnemonic.text (m : Mnemonic) : String :=
  match m.operands with
  | [] => m.word
  | operands => m.word ++ " " ++ ", ".intercalate (operands.map Operand.text)

def Condition.mnemonic : Condition → Mnemonic
  | .holds x n => ⟨"SE", [.register x, .byte n]⟩
  | .lacks x n => ⟨"SNE", [.register x, .byte n]⟩
  | .equal x y => ⟨"SE", [.register x, .register y]⟩
  | .differ x y => ⟨"SNE", [.register x, .register y]⟩
  | .keyDown x => ⟨"SKP", [.register x]⟩
  | .keyUp x => ⟨"SKNP", [.register x]⟩

def Arithmetic.word : Arithmetic → String
  | .copy => "LD"
  | .or => "OR"
  | .and => "AND"
  | .xor => "XOR"
  | .add => "ADD"
  | .sub => "SUB"
  | .shiftRight => "SHR"
  | .subFrom => "SUBN"
  | .shiftLeft => "SHL"

def Instruction.mnemonic : Instruction → Mnemonic
  | .sys a => ⟨"SYS", [.address a]⟩
  | .clearScreen => ⟨"CLS", []⟩
  | .ret => ⟨"RET", []⟩
  | .jump a => ⟨"JP", [.address a]⟩
  | .call a => ⟨"CALL", [.address a]⟩
  | .skip c => c.mnemonic
  | .setByte x n => ⟨"LD", [.register x, .byte n]⟩
  | .addByte x n => ⟨"ADD", [.register x, .byte n]⟩
  | .combine op x y => ⟨op.word, [.register x, .register y]⟩
  | .setIndex a => ⟨"LD", [.index, .address a]⟩
  | .jumpOffset a => ⟨"JP", [.register 0, .address a]⟩
  | .random x mask => ⟨"RND", [.register x, .byte mask]⟩
  | .draw x y height => ⟨"DRW", [.register x, .register y, .height height]⟩
  | .readDelay x => ⟨"LD", [.register x, .delayTimer]⟩
  | .awaitKey x => ⟨"LD", [.register x, .key]⟩
  | .setDelay x => ⟨"LD", [.delayTimer, .register x]⟩
  | .setSound x => ⟨"LD", [.soundTimer, .register x]⟩
  | .addIndex x => ⟨"ADD", [.index, .register x]⟩
  | .pointGlyph x => ⟨"LD", [.glyph, .register x]⟩
  | .storeDecimal x => ⟨"LD", [.decimal, .register x]⟩
  | .store x => ⟨"LD", [.pointed, .register x]⟩
  | .load x => ⟨"LD", [.register x, .pointed]⟩

def Instruction.text (i : Instruction) : String := i.mnemonic.text

end Chip8
