import Chip8.CommandLine.Number
import Chip8.Text.Hex
import Mathlib.Algebra.Group.Nat.Defs

namespace Chip8

namespace CommandLine

variable {base n k : Nat} {cs ds : List Char}

theorem digitValue_digitChar (hk : k < base) (hbase : base ≤ 16) :
    digitValue base k.digitChar = some k := by
  have hall : ∀ k < 16, ∀ base ≤ 16, k < base → digitValue base k.digitChar = some k := by decide
  exact hall k (by omega) base hbase hk

theorem digitsFrom_append :
    digitsFrom base n (cs ++ ds) = (digitsFrom base n cs).bind (digitsFrom base · ds) := by
  induction cs generalizing n with
  | nil => rfl
  | cons c cs ih =>
      rw [List.cons_append, digitsFrom, digitsFrom]
      cases digitValue base c with
      | none => rfl
      | some d => exact ih

theorem digitsFrom_map {f : Char → Char} (h : ∀ c ∈ cs, digitValue base (f c) = digitValue base c) :
    digitsFrom base n (cs.map f) = digitsFrom base n cs := by
  induction cs generalizing n with
  | nil => rfl
  | cons c cs ih =>
      obtain ⟨hc, hcs⟩ := List.forall_mem_cons.1 h
      rw [List.map_cons, digitsFrom, digitsFrom, hc]
      cases digitValue base c with
      | none => rfl
      | some d => exact ih hcs

theorem digitsFrom_zeros (hbase : digitValue base '0' = some 0) :
    digitsFrom base 0 (List.replicate k '0') = some 0 := by
  induction k with
  | zero => rfl
  | succ k ih =>
      rw [List.replicate_succ, digitsFrom, hbase]
      exact ih

theorem digitsFrom_toDigits (hpos : 1 < base) (hbase : base ≤ 16) (n : Nat) :
    digitsFrom base 0 (Nat.toDigits base n) = some n := by
  induction n using Nat.strongRecOn with
  | ind n ih =>
      rw [Nat.toDigits_eq_if hpos]
      split
      next hn =>
        rw [digitsFrom, digitValue_digitChar hn hbase]
        simp only [digitsFrom, Nat.mul_zero, Nat.zero_add]
      next hn =>
        have hlt : n / base < n := Nat.div_lt_self (by omega) hpos
        rw [digitsFrom_append, ih _ hlt, Option.bind_some, digitsFrom,
          digitValue_digitChar (Nat.mod_lt n (by omega)) hbase]
        simp only [digitsFrom, Nat.div_add_mod]

end CommandLine

namespace Text

variable {width n m : Nat} {c : Char}

open CommandLine

theorem mem_toDigits {base : Nat} (hpos : 1 < base) (h : c ∈ Nat.toDigits base n) :
    ∃ k < base, c = k.digitChar := by
  induction n using Nat.strongRecOn with
  | ind n ih =>
      rw [Nat.toDigits_eq_if hpos] at h
      split at h
      next hn => exact ⟨n, hn, List.mem_singleton.1 h⟩
      next hn =>
        rcases List.mem_append.1 h with hrest | hlast
        · exact ih (n / base) (Nat.div_lt_self (by omega) hpos) hrest
        · exact ⟨n % base, Nat.mod_lt n (by omega), List.mem_singleton.1 hlast⟩

theorem mem_hexDigits (h : c ∈ hexDigits width n) : ∃ k < 16, c = k.digitChar := by
  rw [hexDigits, List.leftpad, List.mem_append] at h
  rcases h with hzero | hdigit
  · exact ⟨0, by decide, List.eq_of_mem_replicate hzero⟩
  · exact mem_toDigits (by decide) hdigit

theorem length_hexDigits (width n : Nat) :
    (hexDigits width n).length = max width (Nat.toDigits 16 n).length := List.length_leftpad

theorem length_hexDigits_of_lt (hwidth : 0 < width) (h : n < 16 ^ width) :
    (hexDigits width n).length = width := by
  rw [length_hexDigits, Nat.max_eq_left ((Nat.length_toDigits_le_iff (by decide) hwidth).2 h)]

theorem toList_prefixedHex (width n : Nat) :
    (prefixedHex width n).toList = '0' :: 'x' :: hexDigits width n := by
  simp [prefixedHex, hex]

theorem digitsFrom_hexDigits (width n : Nat) : digitsFrom 16 0 (hexDigits width n) = some n := by
  rw [hexDigits, List.leftpad, digitsFrom_append, digitsFrom_zeros (by decide), Option.bind_some,
    digitsFrom_toDigits (by decide) (by decide)]

theorem digitsFrom_upperHexDigits (width n : Nat) :
    digitsFrom 16 0 ((hexDigits width n).map Char.toUpper) = some n := by
  have hcase : ∀ k < 16, digitValue 16 k.digitChar.toUpper = digitValue 16 k.digitChar := by decide
  rw [digitsFrom_map, digitsFrom_hexDigits]
  intro c hc
  obtain ⟨k, hk, rfl⟩ := mem_hexDigits hc
  exact hcase k hk

theorem upperHexDigits_inj :
    (hexDigits width n).map Char.toUpper = (hexDigits width m).map Char.toUpper ↔ n = m := by
  constructor
  · intro h
    have hread := congrArg (digitsFrom 16 0) h
    rwa [digitsFrom_upperHexDigits, digitsFrom_upperHexDigits, Option.some.injEq] at hread
  · rintro rfl
    rfl

end Text

end Chip8
