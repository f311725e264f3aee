import Chip8.Digit
import Chip8.Fault

namespace Chip8

structure Keypad where
  keys : Vector Bool 16
  deriving DecidableEq

namespace Keypad

def released : Keypad := ⟨.replicate 16 false⟩

def set (k : Keypad) (key : UInt8) (pressed : Bool) : Except InvalidKey Keypad :=
  if h : key.toNat < 16 then .ok ⟨k.keys.set key.toNat pressed⟩ else .error ⟨key⟩

def isPressed (k : Keypad) (key : UInt8) : Bool := pick k.keys key

def held (k : Keypad) : List UInt8 :=
  ((List.range 16).map UInt8.ofNat).filter k.isPressed

def any (k : Keypad) : Bool := k.keys.any id

def lowest (k : Keypad) : Option UInt8 := k.held.head?

theorem mem_held {k : Keypad} {key : UInt8} :
    key ∈ k.held ↔ key.toNat < 16 ∧ k.isPressed key := by
  simp only [held, List.mem_filter, List.mem_map, List.mem_range, and_congr_left_iff]
  refine fun _ => ⟨?_, fun h => ⟨key.toNat, h, by simp⟩⟩
  rintro ⟨n, hn, rfl⟩
  simp; omega

theorem isPressed_of_lt {k : Keypad} {key : UInt8} (h : key.toNat < 16) :
    k.isPressed key = k.keys[key.toNat] := by
  simp only [isPressed, pick, lowDigit, Fin.getElem_fin, Nat.mod_eq_of_lt h]

theorem any_iff {k : Keypad} : k.any ↔ ∃ key, key ∈ k.held := by
  simp only [any, Vector.any_eq_true, id, mem_held]
  constructor
  · rintro ⟨n, hn, h⟩
    have hkey : (UInt8.ofNat n).toNat = n := by
      rw [UInt8.toNat_ofNat']
      omega
    refine ⟨UInt8.ofNat n, by omega, ?_⟩
    rw [isPressed_of_lt (by omega)]
    simpa only [hkey] using h
  · rintro ⟨key, hkey, h⟩
    exact ⟨key.toNat, hkey, isPressed_of_lt hkey ▸ h⟩

theorem lowest_eq_none_iff {k : Keypad} : k.lowest = none ↔ k.any = false := by
  rw [lowest, List.head?_eq_none_iff, ← Bool.not_eq_true, any_iff]
  simp [List.eq_nil_iff_forall_not_mem]

theorem lowest_eq_some {k : Keypad} {key : UInt8} (h : k.lowest = some key) :
    key.toNat < 16 ∧ k.isPressed key ∧ ∀ j, j < key → ¬ k.isPressed j := by
  obtain ⟨hlt, hpressed⟩ := mem_held.1 (List.mem_of_head? h)
  refine ⟨hlt, hpressed, ?_⟩
  intro j hj
  rw [lowest, held, List.head?_filter, List.find?_map, Option.map_eq_some_iff] at h
  obtain ⟨n, hn, rfl⟩ := h
  obtain ⟨-, -, hleast⟩ := List.find?_range_eq_some.1 hn
  have hjn : j.toNat < n := by
    have := UInt8.lt_iff_toNat_lt.1 hj
    rw [UInt8.toNat_ofNat'] at this
    omega
  simpa using hleast j.toNat hjn

end Keypad

end Chip8
