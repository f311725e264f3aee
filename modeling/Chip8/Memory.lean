import Chip8.Fault
import Chip8.Font

namespace Chip8

/-- Four kilobytes. The font lies at the bottom; below `0x200` nothing but the font is written, and
programs begin there. -/
structure Memory where
  bytes : Vector UInt8 0x1000
  deriving DecidableEq

namespace Memory

def seedFont (m : Memory) : Memory :=
  ⟨.ofFn fun a => if h : a.val < 80 then font[a.val] else m.bytes[a]⟩

def initial : Memory := seedFont ⟨.replicate 0x1000 0⟩

def overwrite (m : Memory) (program : Array UInt8) (offset : Nat) : Memory :=
  ⟨.ofFn fun a => if a.val < offset then m.bytes[a] else program.getD (a.val - offset) 0⟩

def load (m : Memory) (program : Array UInt8) (offset : Nat) : Except LoadError Memory :=
  if offset < 0x200 ∨ 0x1000 < offset then .error (.invalidOffset offset)
  else if 0x1000 - offset < program.size then .error (.tooLarge program.size (0x1000 - offset))
  else .ok (m.overwrite program offset)

def read (m : Memory) (address : Nat) : Except Fault UInt8 :=
  if h : address < 0x1000 then .ok m.bytes[address] else .error (.outOfBounds address)

def write (m : Memory) (address : Nat) (value : UInt8) : Except Fault Memory :=
  if address < 0x200 then .error (.protectedWrite address)
  else if h : address < 0x1000 then .ok ⟨m.bytes.set address value⟩
  else .error (.outOfBounds address)

def readSlice (m : Memory) (address len : Nat) : Except Fault (List UInt8) :=
  if h : address + len ≤ 0x1000 then .ok (List.ofFn fun k : Fin len => m.bytes[address + k])
  else .error (.outOfBounds (max address 0x1000))

def put (m : Memory) (address : Nat) : List UInt8 → Memory
  | [] => m
  | value :: values => put ⟨m.bytes.setIfInBounds address value⟩ (address + 1) values

/-- All the values are written or none. Where a slice begins decides first, so even an empty one is
refused in the reserved part. -/
def writeSlice (m : Memory) (address : Nat) (values : List UInt8) : Except Fault Memory :=
  if address < 0x200 then .error (.protectedWrite address)
  else if 0x1000 < address + values.length then .error (.outOfBounds (max address 0x1000))
  else .ok (m.put address values)

theorem getElem_seedFont (m : Memory) {a : Nat} (h : a < 0x1000) :
    m.seedFont.bytes[a] = if h : a < 80 then font[a] else m.bytes[a] := by
  simp only [seedFont, Vector.getElem_ofFn]
  rfl

theorem getElem_initial {a : Nat} (h : a < 80) : initial.bytes[a] = font[a] := by
  rw [initial, getElem_seedFont, dif_pos h]

theorem getElem_overwrite (m : Memory) (p : Array UInt8) (offset a : Nat) (h : a < 0x1000) :
    (m.overwrite p offset).bytes[a] = if a < offset then m.bytes[a] else p.getD (a - offset) 0 := by
  simp [overwrite]

theorem getElem_put (m : Memory) (address : Nat) (values : List UInt8) (a : Nat)
    (h : a < 0x1000) : (m.put address values).bytes[a] =
      if address ≤ a then values.getD (a - address) m.bytes[a] else m.bytes[a] := by
  induction values generalizing m address with
  | nil => simp [put]
  | cons value values ih =>
      rw [put, ih]
      simp only [Vector.getElem_setIfInBounds]
      rcases Nat.lt_trichotomy address a with hlt | rfl | hgt
      · obtain ⟨k, rfl⟩ := Nat.exists_eq_add_of_lt hlt
        have hne : address ≠ address + k + 1 := by omega
        have hle : address + 1 ≤ address + k + 1 := by omega
        simp [hne, hle, show address ≤ address + k + 1 by omega,
          show address + k + 1 - address = k + 1 by omega,
          show address + k + 1 - (address + 1) = k by omega]
      · simp [show ¬ address + 1 ≤ address by omega]
      · simp [show ¬ address ≤ a by omega, show ¬ address + 1 ≤ a by omega,
          show address ≠ a by omega]

end Memory

end Chip8
