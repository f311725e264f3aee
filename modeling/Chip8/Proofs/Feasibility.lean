import Chip8.Proofs.Execution
import Chip8.Proofs.Slices

namespace Chip8

theorem isOk_iff {ε α : Type} {e : Except ε α} : e.isOk ↔ ∃ a, e = .ok a := by
  cases e with
  | ok a => exact iff_of_true rfl ⟨a, rfl⟩
  | error c => exact iff_of_false Bool.false_ne_true (by rintro ⟨_, ⟨⟩⟩)

theorem isOk_map {ε α β : Type} (f : α → β) (e : Except ε α) : (e.map f).isOk = e.isOk := by
  cases e with
  | ok a => rfl
  | error c => rfl

namespace CallStack

variable {s : CallStack}

theorem isOk_pop : s.pop.isOk ↔ 0 < s.depth := by
  rw [pop]
  split
  · next h => exact iff_of_false Bool.false_ne_true (Nat.not_lt.2 (Nat.le_of_eq h))
  · next h => exact iff_of_true rfl (Nat.pos_of_ne_zero h)

theorem isOk_push {frame target : UInt16} : (s.push frame target).isOk ↔ s.depth < 16 := by
  rw [push]
  split
  · next h => exact iff_of_true rfl h
  · next h => exact iff_of_false Bool.false_ne_true h

end CallStack

namespace Core

variable {d : Dialect} {s t : Core} {i : Instruction}

/-- What an instruction needs to be carried out. Where it leads is no part of that, but for a jump
with an offset. -/
def Allows (d : Dialect) (s : Core) : Instruction → Prop
  | .ret => 0 < s.stack.depth
  | .call _ => s.stack.depth < 16
  | .jumpOffset a => s.jumpTarget d a < 0x1000
  | .draw _ _ height => s.address + height.toNat ≤ 0x1000
  | .storeDecimal _ => 0x200 ≤ s.address ∧ s.address + 3 ≤ 0x1000
  | .store x => 0x200 ≤ s.address ∧ s.address + (x.toNat + 1) ≤ 0x1000
  | .load x => s.address + (x.toNat + 1) ≤ 0x1000
  | _ => True

theorem isOk_effect (hi : i.InRange) : (s.effect d i).isOk ↔ s.Allows d i := by
  cases i with
  | sys | clearScreen | jump | skip | setByte | addByte | combine | setIndex | random | readDelay
  | awaitKey | setDelay | setSound | addIndex | pointGlyph => exact iff_of_true rfl trivial
  | ret =>
      rw [effect, isOk_map]
      exact CallStack.isOk_pop
  | call a =>
      rw [effect, isOk_map]
      exact CallStack.isOk_push
  | jumpOffset a =>
      rw [effect, jumpOffset]
      split
      · next h => exact iff_of_true rfl h
      · next h => exact iff_of_false Bool.false_ne_true h
  | draw x y height =>
      rw [effect, draw, isOk_map]
      exact isOk_iff.trans Memory.exists_readSlice_iff
  | storeDecimal x =>
      rw [effect, isOk_map]
      exact isOk_iff.trans Memory.exists_writeSlice_iff
  | store x =>
      rw [effect, isOk_map, Allows, ← Registers.length_upTo hi s.registers]
      exact isOk_iff.trans Memory.exists_writeSlice_iff
  | load x =>
      rw [effect, isOk_map, Allows, ← Registers.countTo_eq hi]
      exact isOk_iff.trans Memory.exists_readSlice_iff

theorem perform_of_outcome (h : (Action.execute d i).run s = Action.outcome s (s.effect d i)) :
    s.perform d i = match s.effect d i with
      | .ok t => ⟨.ok i.progress, t, i.notes⟩
      | .error f => ⟨.error f, s, []⟩ := by
  cases ht : s.effect d i with
  | ok t =>
      rw [ht] at h
      exact perform_of_run_eq_ok h
  | error f =>
      rw [ht] at h
      exact perform_of_run_eq_error h

theorem isOk_perform (h : (Action.execute d i).run s = Action.outcome s (s.effect d i)) :
    (s.perform d i).answer.isOk = (s.effect d i).isOk := by
  rw [perform_of_outcome h]
  cases s.effect d i with
  | ok t => rfl
  | error f => rfl

theorem effect_of_isOk (h : (Action.execute d i).run s = Action.outcome s (s.effect d i))
    (hok : (s.perform d i).answer.isOk) : s.effect d i = .ok (s.perform d i).next := by
  rw [isOk_perform h, isOk_iff] at hok
  obtain ⟨t, ht⟩ := hok
  rw [perform_of_outcome h, ht]

theorem perform_next_of_not_isOk
    (h : (Action.execute d i).run s = Action.outcome s (s.effect d i))
    (hno : ¬ (s.perform d i).answer.isOk) : (s.perform d i).next = s := by
  rw [perform_of_outcome h] at hno ⊢
  cases ht : s.effect d i with
  | ok t =>
      rw [ht] at hno
      exact absurd rfl hno
  | error f => rfl

theorem perform_next_keeps {P : Core → Prop}
    (h : (Action.execute d i).run s = Action.outcome s (s.effect d i)) (hs : P s)
    (ht : ∀ t, s.effect d i = .ok t → P t) : P (s.perform d i).next := by
  rw [perform_of_outcome h]
  cases heffect : s.effect d i with
  | ok t => exact ht t heffect
  | error f => exact hs

end Core

end Chip8
