import Chip8.Instruction.Codec
import Chip8.Instruction.Mnemonic

namespace Chip8

structure Listing.Line where
  address : UInt16
  opcode : Opcode
  deriving DecidableEq, Repr

namespace Listing.Line

def instruction (l : Line) : Option Instruction := Instruction.decode l.opcode

def statement (l : Line) : String :=
  match l.instruction with
  | some i => i.text
  | none => "DB " ++ Text.prefixedHex 4 l.opcode.toNat

def text (l : Line) : String :=
  Text.prefixedHex 3 l.address.toNat ++ ": " ++ Text.upperHex 4 l.opcode.toNat ++ "  "
    ++ l.statement

end Listing.Line

/-- The program word by word, as it would stand from `origin` on. Addresses wrap, and an odd last
byte is the high half of a word whose low half is zero. -/
def listing (program : Array UInt8) (origin : UInt16) : List Listing.Line :=
  (List.range ((program.size + 1) / 2)).map fun k =>
    { address := origin + UInt16.ofNat (2 * k)
      opcode := .ofBytes (program.getD (2 * k) 0) (program.getD (2 * k + 1) 0) }

end Chip8
