import Chip8.Fault

namespace Chip8

/-- The return addresses of the calls that are under way. Slots from `depth` on hold what earlier
calls left there and mean nothing. -/
structure CallStack where
  slots : Vector UInt16 16
  depth : Nat
  depth_le : depth ≤ 16
  deriving DecidableEq

namespace CallStack

def empty : CallStack := ⟨.replicate 16 0, 0, by decide⟩

/-- The return addresses, innermost call last. -/
def frames (s : CallStack) : List UInt16 := s.slots.toList.take s.depth

def push (s : CallStack) (frame target : UInt16) : Except Fault CallStack :=
  if h : s.depth < 16 then .ok ⟨s.slots.set s.depth frame, s.depth + 1, h⟩
  else .error (.stackOverflow target)

def pop (s : CallStack) : Except Fault (UInt16 × CallStack) :=
  if h : s.depth = 0 then .error .stackUnderflow
  else
    have below : s.depth - 1 < 16 := by have := s.depth_le; omega
    .ok (s.slots[s.depth - 1], ⟨s.slots, s.depth - 1, by omega⟩)

theorem frames_empty : empty.frames = [] := rfl

theorem length_frames (s : CallStack) : s.frames.length = s.depth := by
  simp [frames, s.depth_le]

theorem frames_push {s t : CallStack} {frame target : UInt16} (h : s.push frame target = .ok t) :
    t.frames = s.frames ++ [frame] := by
  unfold push at h
  split at h
  · next hd =>
    cases h
    rw [frames, List.take_add_one]
    simp [frames, hd, Vector.toList_set, List.take_set_of_le]
  · cases h

theorem frames_pop {s t : CallStack} {frame : UInt16} (h : s.pop = .ok (frame, t)) :
    s.frames = t.frames ++ [frame] := by
  unfold pop at h
  split at h
  · cases h
  · next hd =>
    cases h
    have := s.depth_le
    obtain ⟨n, hn⟩ := Nat.exists_eq_succ_of_ne_zero hd
    simp [frames, hn, List.take_add_one, show n < 16 by omega]

theorem push_eq_error_iff {s : CallStack} {frame target : UInt16} {f : Fault} :
    s.push frame target = .error f ↔ s.depth = 16 ∧ f = .stackOverflow target := by
  have := s.depth_le
  unfold push
  split
  · simp; omega
  · simp [eq_comm]; omega

theorem pop_eq_error_iff {s : CallStack} {f : Fault} :
    s.pop = .error f ↔ s.depth = 0 ∧ f = .stackUnderflow := by
  unfold pop
  split <;> simp [*, eq_comm]

end CallStack

end Chip8
