import Chip8.CallStack

namespace Chip8.CallStack

variable {σ τ : Type} {s : CallStack} {f : Fault}

inductive Move
  | push (frame target : UInt16)
  | pop
  deriving DecidableEq, Repr

abbrev Reply := Except Fault (Option UInt16)

def settle (s : CallStack) : Except Fault (Option UInt16 × CallStack) → Reply × CallStack
  | .ok (frame, t) => (.ok frame, t)
  | .error f => (.error f, s)

def move (s : CallStack) : Move → Reply × CallStack
  | .push frame target => s.settle ((s.push frame target).map (none, ·))
  | .pop => s.settle (s.pop.map fun popped => (some popped.1, popped.2))

/-- The same moves made with a list that has room for sixteen. -/
def moveList (frames : List UInt16) : Move → Reply × List UInt16
  | .push frame target =>
      if frames.length < 16 then (.ok none, frames ++ [frame])
      else (.error (.stackOverflow target), frames)
  | .pop =>
      match frames.getLast? with
      | some frame => (.ok (some frame), frames.dropLast)
      | none => (.error .stackUnderflow, frames)

def moveAll (move : σ → Move → Reply × σ) (s : σ) : List Move → List Reply × σ
  | [] => ([], s)
  | m :: ms =>
      let made := move s m
      let rest := moveAll move made.2 ms
      (made.1 :: rest.1, rest.2)

theorem settle_of_error {result : Except Fault (Option UInt16 × CallStack)}
    (h : (s.settle result).1 = .error f) : (s.settle result).2 = s := by
  cases result with
  | ok made => cases h
  | error g => rfl

theorem move_of_error {m : Move} (h : (s.move m).1 = .error f) : (s.move m).2 = s := by
  cases m with
  | push frame target => exact settle_of_error h
  | pop => exact settle_of_error h

/-- A view of the state that goes along with each move goes along with all of them. -/
theorem moveAll_view {move : σ → Move → Reply × σ} {move' : τ → Move → Reply × τ} {view : σ → τ}
    (h : ∀ s m, move' (view s) m = ((move s m).1, view (move s m).2)) (s : σ) (ms : List Move) :
    moveAll move' (view s) ms = ((moveAll move s ms).1, view (moveAll move s ms).2) := by
  induction ms generalizing s with
  | nil => rfl
  | cons m ms ih => simp only [moveAll, h, ih]

theorem moveList_frames_push (s : CallStack) (frame target : UInt16) :
    moveList s.frames (.push frame target) =
      ((s.move (.push frame target)).1, (s.move (.push frame target)).2.frames) := by
  rw [moveList, move, length_frames]
  cases h : s.push frame target with
  | ok t =>
      have hlen : t.depth = s.depth + 1 := by
        rw [← length_frames, frames_push h, List.length_append, length_frames]
        rfl
      rw [if_pos (by have := t.depth_le; omega), ← frames_push h]
      rfl
  | error f =>
      obtain ⟨hfull, rfl⟩ := push_eq_error_iff.1 h
      rw [if_neg (by omega)]
      rfl

theorem moveList_frames_pop (s : CallStack) :
    moveList s.frames .pop = ((s.move .pop).1, (s.move .pop).2.frames) := by
  rw [moveList, move]
  cases h : s.pop with
  | ok popped =>
      rw [frames_pop h, List.getLast?_concat, List.dropLast_concat]
      rfl
  | error f =>
      obtain ⟨hnone, rfl⟩ := pop_eq_error_iff.1 h
      have hlast : s.frames.getLast? = none :=
        List.getLast?_eq_none_iff.2 (List.length_eq_zero_iff.1 (s.length_frames.trans hnone))
      rw [hlast]
      rfl

theorem moveList_frames (s : CallStack) (m : Move) :
    moveList s.frames m = ((s.move m).1, (s.move m).2.frames) := by
  cases m with
  | push frame target => exact moveList_frames_push s frame target
  | pop => exact moveList_frames_pop s

theorem moveAll_moveList (s : CallStack) (ms : List Move) :
    moveAll moveList s.frames ms = ((moveAll move s ms).1, (moveAll move s ms).2.frames) :=
  moveAll_view moveList_frames s ms

/-- The slots from the depth on have no part in the frames. -/
theorem frames_of_slots {slots : Vector UInt16 16}
    (h : ∀ k : Fin 16, k.val < s.depth → slots.get k = s.slots.get k) :
    { s with slots }.frames = s.frames := by
  apply List.ext_getElem
  · rw [length_frames, length_frames]
  · intro k hk hk'
    rw [length_frames] at hk'
    have hk16 : k < 16 := Nat.lt_of_lt_of_le hk' s.depth_le
    simp only [frames, List.getElem_take, Vector.getElem_toList]
    exact h ⟨k, hk16⟩ hk'

/-- A call stack is a list of at most sixteen frames, whatever is done to it: it replies as the list
does and holds what the list holds. What earlier calls left in the slots above never comes back. -/
theorem moveAll_listed (ms : List Move) :
    let stack := moveAll move empty ms
    let list := moveAll moveList [] ms
    stack.1 = list.1 ∧ stack.2.frames = list.2 ∧ stack.2.depth = list.2.length ∧
      list.2.length ≤ 16 ∧
    (∀ m f, (stack.2.move m).1 = .error f → (stack.2.move m).2 = stack.2) ∧
    ∀ slots : Vector UInt16 16,
      (∀ k : Fin 16, k.val < stack.2.depth → slots.get k = stack.2.slots.get k) →
      ∀ later : List Move,
        let other := moveAll move { stack.2 with slots } later
        other.1 = (moveAll move stack.2 later).1 ∧
          other.2.frames = (moveAll move stack.2 later).2.frames := by
  intro stack list
  have hlist : list = (stack.1, stack.2.frames) := moveAll_moveList empty ms
  rw [hlist]
  refine ⟨rfl, rfl, stack.2.length_frames.symm, ?_, fun m f => move_of_error, ?_⟩
  · rw [length_frames]
    exact stack.2.depth_le
  · intro slots hslots later other
    have hother := moveAll_moveList { stack.2 with slots } later
    rw [frames_of_slots hslots, moveAll_moveList, Prod.mk.injEq] at hother
    exact ⟨hother.1.symm, hother.2.symm⟩

theorem moveAll_listed_returned :
    let stack := moveAll move empty [.push 0x202 0x300, .push 0x302 0x400, .pop]
    let slots := (Vector.replicate 16 0xFFFF).set 0 0x202
    stack.1 = [.ok none, .ok none, .ok (some 0x302)] ∧ stack.2.frames = [0x202] ∧
      (moveAll move { stack.2 with slots } [.pop, .pop]).1 =
        [.ok (some 0x202), .error .stackUnderflow] := by
  intro stack slots
  obtain ⟨hreplies, hframes, -, -, -, hfree⟩ :=
    moveAll_listed [.push 0x202 0x300, .push 0x302 0x400, .pop]
  exact ⟨hreplies, hframes, (hfree slots (by decide) [.pop, .pop]).1⟩

end Chip8.CallStack
