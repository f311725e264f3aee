namespace Chip8

structure Timers where
  delay : UInt8 := 0
  sound : UInt8 := 0
  deriving DecidableEq, Repr

namespace Timers

def countDown (t : UInt8) : UInt8 := if t = 0 then 0 else t - 1

def tick (t : Timers) : Timers := ⟨countDown t.delay, countDown t.sound⟩

def isSounding (t : Timers) : Bool := 0 < t.sound

theorem toNat_countDown (t : UInt8) : (countDown t).toNat = t.toNat - 1 := by
  by_cases h : t = 0
  · simp [countDown, h]
  · have hp : 1 ≤ t := UInt8.le_iff_toNat_le.2 (by
      have : t.toNat ≠ 0 := fun h0 => h (UInt8.toNat_inj.1 h0)
      simp; omega)
    simp [countDown, h, UInt8.toNat_sub_of_le _ _ hp]

end Timers

end Chip8
