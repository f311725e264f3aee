import Chip8.Digit

namespace Chip8

structure Registers where
  bytes : Vector UInt8 16
  deriving DecidableEq

namespace Registers

def zero : Registers := ⟨.replicate 16 0⟩

def read (v : Registers) (x : UInt8) : UInt8 := pick v.bytes x

def write (v : Registers) (x value : UInt8) : Registers := ⟨replace v.bytes x value⟩

def writeFlag (v : Registers) (set : Bool) : Registers := v.write 0xF (if set then 1 else 0)

def countTo (x : UInt8) : Nat := (lowDigit x).val + 1

def upTo (v : Registers) (x : UInt8) : List UInt8 := v.bytes.toList.take (countTo x)

def fill (v : Registers) (first : Nat) (values : List UInt8) : Registers :=
  ⟨v.bytes.mapIdx fun k b => if k < first then b else values.getD (k - first) b⟩

theorem read_write (v : Registers) (x y b : UInt8) :
    (v.write x b).read y = if lowDigit x = lowDigit y then b else v.read y := by
  simp [read, write, pick_replace]

theorem read_write_of_lt (v : Registers) {x y : UInt8} (hx : x.toNat < 16) (hy : y.toNat < 16)
    (b : UInt8) : (v.write x b).read y = if x = y then b else v.read y := by
  simp only [read_write, lowDigit_inj hx hy]

theorem write_write (v : Registers) (x a b : UInt8) :
    (v.write x a).write x b = v.write x b := by
  simp [write, replace]

theorem writeFlag_writeFlag (v : Registers) (a b : Bool) :
    (v.writeFlag a).writeFlag b = v.writeFlag b :=
  v.write_write 0xF _ _

theorem read_writeFlag_self (v : Registers) (set : Bool) :
    (v.writeFlag set).read 0xF = if set then 1 else 0 :=
  (v.read_write 0xF 0xF _).trans (if_pos rfl)

theorem read_writeFlag_of_ne (v : Registers) (set : Bool) {y : UInt8} (hy : y.toNat < 16)
    (hne : y ≠ 0xF) : (v.writeFlag set).read y = v.read y :=
  (v.read_write_of_lt (by decide) hy _).trans (if_neg hne.symm)

theorem read_fill (v : Registers) (first : Nat) (values : List UInt8) (x : UInt8) :
    (v.fill first values).read x = if (lowDigit x).val < first then v.read x
      else values.getD ((lowDigit x).val - first) (v.read x) := by
  simp [read, fill, pick]

end Registers

end Chip8
