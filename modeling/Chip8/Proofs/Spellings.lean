import Chip8.Proofs.Numerals
import Mathlib.Data.List.Forall2
import Mathlib.Data.Nat.Digits.Defs

namespace Chip8.CommandLine

variable {base bound n m d : Nat} {b : UInt8} {c : Char} {text cs digits : List Char}

def Denotes (base : Nat) (c : Char) (d : Nat) : Prop :=
  d < base ∧ (c = d.digitChar ∨ c = d.digitChar.toUpper)

instance (base : Nat) (c : Char) (d : Nat) : Decidable (Denotes base c d) :=
  inferInstanceAs (Decidable (_ ∧ _))

/-- Digits and the number that they stand for, the highest place being first. -/
def Spells (base : Nat) (digits : List Char) (n : Nat) : Prop :=
  ∃ ds : List Nat, List.Forall₂ (Denotes base) digits ds ∧ Nat.ofDigits base ds.reverse = n

/-- A number as it may be written: digits, and perhaps a plus sign in front. -/
def Numeral (base : Nat) (text : List Char) (n : Nat) : Prop :=
  ∃ sign digits, text = sign ++ digits ∧ (sign = [] ∨ sign = ['+']) ∧ digits ≠ [] ∧
    Spells base digits n

def markers (k : Nat) : List Char := (List.replicate k ['0', 'x']).flatten

/-- A key as it may be written: a hexadecimal number behind any number of markers. -/
def KeyNumeral (text : List Char) (n : Nat) : Prop :=
  ∃ k rest, text = markers k ++ rest ∧ Numeral 16 rest n

theorem lt_of_digitValue (h : digitValue base c = some d) : d < base ∧ c.toNat < 103 := by
  rw [digitValue, Option.filter_eq_some_iff, decide_eq_true_eq] at h
  obtain ⟨hvalue, hd⟩ := h
  refine ⟨hd, ?_⟩
  split at hvalue
  next hrange => exact Nat.lt_of_le_of_lt hrange.2 (by decide)
  next =>
    split at hvalue
    next hrange => exact Nat.lt_of_le_of_lt hrange.2 (by decide)
    next =>
      split at hvalue
      next hrange => exact Nat.lt_of_le_of_lt hrange.2 (by decide)
      next => cases hvalue

theorem digitValue_eq_some_iff (hbase : base ≤ 16) :
    digitValue base c = some d ↔ Denotes base c d := by
  constructor
  · intro h
    obtain ⟨hd, hc⟩ := lt_of_digitValue h
    have hall : ∀ n < 103, ∀ d < 16,
        digitValue 16 (.ofNat n) = some d → Denotes 16 (.ofNat n) d := by decide
    have h16 : digitValue 16 c = some d := by
      rw [digitValue, Option.filter_eq_some_iff] at h ⊢
      exact ⟨h.1, decide_eq_true (by omega)⟩
    rw [← Char.ofNat_toNat c] at h16 ⊢
    exact ⟨hd, (hall _ hc d (by omega) h16).2⟩
  · have hupper : ∀ d < 16, ∀ base ≤ 16,
        d < base → digitValue base d.digitChar.toUpper = some d := by decide
    rintro ⟨hd, rfl | rfl⟩
    · exact digitValue_digitChar hd hbase
    · exact hupper d (by omega) base hbase hd

theorem ofDigits_place (base n d : Nat) (ds : List Nat) :
    Nat.ofDigits base (ds.reverse ++ [base * n + d]) =
      Nat.ofDigits base ((d :: ds).reverse ++ [n]) := by
  rw [List.reverse_cons, List.append_assoc, List.singleton_append, Nat.ofDigits_append,
    Nat.ofDigits_append, Nat.ofDigits_singleton, Nat.ofDigits_cons, Nat.ofDigits_singleton,
    Nat.add_comm d]

theorem digitsFrom_eq_some_iff (hbase : base ≤ 16) : digitsFrom base n cs = some m ↔
    ∃ ds : List Nat, List.Forall₂ (Denotes base) cs ds ∧
      Nat.ofDigits base (ds.reverse ++ [n]) = m := by
  induction cs generalizing n with
  | nil => simp [digitsFrom]
  | cons c cs ih =>
      rw [digitsFrom]
      cases hc : digitValue base c with
      | none =>
          constructor
          · intro h
            cases h
          · rintro ⟨ds, hds, -⟩
            obtain ⟨d, ds, hd, -, rfl⟩ := List.forall₂_cons_left_iff.1 hds
            cases hc.symm.trans ((digitValue_eq_some_iff hbase).2 hd)
      | some d =>
          rw [ih]
          constructor
          · rintro ⟨ds, hds, hm⟩
            have hd : Denotes base c d := (digitValue_eq_some_iff hbase).1 hc
            exact ⟨d :: ds, .cons hd hds, (ofDigits_place base n d ds).symm.trans hm⟩
          · rintro ⟨ds, hds, hm⟩
            obtain ⟨e, ds, he, hrest, rfl⟩ := List.forall₂_cons_left_iff.1 hds
            cases hc.symm.trans ((digitValue_eq_some_iff hbase).2 he)
            exact ⟨ds, hrest, (ofDigits_place base n d ds).trans hm⟩

theorem digitsFrom_zero_iff (hbase : base ≤ 16) :
    digitsFrom base 0 cs = some n ↔ Spells base cs n := by
  simp only [digitsFrom_eq_some_iff hbase, Nat.ofDigits_append_zero, Spells]

def unsigned (base bound : Nat) (digits : List Char) : Option Nat :=
  if digits.isEmpty then none else (digitsFrom base 0 digits).filter (· < bound)

theorem number_plus : number base bound ('+' :: digits) = unsigned base bound digits := rfl

theorem number_of_no_plus (h : ∀ rest, text ≠ '+' :: rest) :
    number base bound text = unsigned base bound text := by
  rw [number, unsigned]
  exact h

theorem unsigned_of_spells (hbase : base ≤ 16) (hne : digits ≠ []) (h : Spells base digits n) :
    unsigned base bound digits = (some n).filter (· < bound) := by
  rw [unsigned, (digitsFrom_zero_iff hbase).2 h]
  exact if_neg (by rwa [List.isEmpty_iff])

theorem spells_of_unsigned (hbase : base ≤ 16) (h : unsigned base bound digits = some n) :
    n < bound ∧ digits ≠ [] ∧ Spells base digits n := by
  rw [unsigned] at h
  split at h
  next => cases h
  next hne =>
    rw [Option.filter_eq_some_iff, digitsFrom_zero_iff hbase, decide_eq_true_eq] at h
    exact ⟨h.2, by rwa [List.isEmpty_iff] at hne, h.1⟩

theorem Spells.ne_plus (hbase : base ≤ 16) (h : Spells base digits n) (rest : List Char) :
    digits ≠ '+' :: rest := by
  rintro rfl
  have hplus : digitValue base '+' = none := rfl
  have hread := (digitsFrom_zero_iff hbase).2 h
  rw [digitsFrom, hplus] at hread
  cases hread

theorem number_of_numeral (hbase : base ≤ 16) (h : Numeral base text n) :
    number base bound text = (some n).filter (· < bound) := by
  obtain ⟨sign, digits, rfl, rfl | rfl, hne, hspells⟩ := h
  · exact (number_of_no_plus (hspells.ne_plus hbase)).trans (unsigned_of_spells hbase hne hspells)
  · exact number_plus.trans (unsigned_of_spells hbase hne hspells)

theorem numeral_of_number (hbase : base ≤ 16) (h : number base bound text = some n) :
    n < bound ∧ Numeral base text n := by
  by_cases hplus : ∃ rest, text = '+' :: rest
  · obtain ⟨rest, rfl⟩ := hplus
    obtain ⟨hn, hne, hspells⟩ := spells_of_unsigned hbase (number_plus.symm.trans h)
    exact ⟨hn, ['+'], rest, rfl, .inr rfl, hne, hspells⟩
  · rw [number_of_no_plus (not_exists.1 hplus)] at h
    obtain ⟨hn, hne, hspells⟩ := spells_of_unsigned hbase h
    exact ⟨hn, [], text, rfl, .inl rfl, hne, hspells⟩

theorem dropMarkers_markers (k : Nat) (rest : List Char) :
    dropMarkers (markers k ++ rest) = dropMarkers rest := by
  induction k with
  | zero => rfl
  | succ k ih => exact ih

theorem exists_markers (text : List Char) : ∃ k, text = markers k ++ dropMarkers text := by
  induction text using dropMarkers.induct with
  | case1 rest ih =>
      obtain ⟨k, hk⟩ := ih
      exact ⟨k + 1, congrArg ('0' :: 'x' :: ·) hk⟩
  | case2 text hother =>
      refine ⟨0, ?_⟩
      rw [dropMarkers]
      · rfl
      · exact hother

/-- No number begins with a marker, so the markers end where the number begins. -/
theorem dropMarkers_numeral (h : Numeral 16 text n) : dropMarkers text = text := by
  rw [dropMarkers]
  rintro rest rfl
  have hread : number 16 (n + 1) ('0' :: 'x' :: rest) = (some n).filter (· < n + 1) :=
    number_of_numeral (by decide) h
  rw [Option.filter_some, if_pos (decide_eq_true (Nat.lt_succ_self n))] at hread
  cases hread

theorem key_of_numeral {text : String} (h : KeyNumeral text.toList n) :
    key text = ((some n).filter (· < 0x100)).map UInt8.ofNat := by
  obtain ⟨k, rest, htext, hrest⟩ := h
  rw [key, htext, dropMarkers_markers, dropMarkers_numeral hrest,
    number_of_numeral (by decide) hrest]

theorem numeral_of_key {text : String} (h : key text = some b) :
    KeyNumeral text.toList b.toNat := by
  obtain ⟨n, hn, rfl⟩ := Option.map_eq_some_iff.1 h
  obtain ⟨hlt, hnumeral⟩ := numeral_of_number (by decide) hn
  obtain ⟨k, hk⟩ := exists_markers text.toList
  rw [UInt8.toNat_ofNat', Nat.mod_eq_of_lt hlt]
  exact ⟨k, _, hk, hnumeral⟩

theorem toNat_key_eq_some_iff {text : String} :
    (key text).map UInt8.toNat = some n ↔ n ≤ 255 ∧ KeyNumeral text.toList n := by
  constructor
  · intro h
    obtain ⟨b, hb, rfl⟩ := Option.map_eq_some_iff.1 h
    exact ⟨Nat.le_of_lt_succ b.toNat_lt, numeral_of_key hb⟩
  · rintro ⟨hn, hnumeral⟩
    have hlt : n < 0x100 := Nat.lt_succ_of_le hn
    rw [key_of_numeral hnumeral, Option.filter_some, if_pos (decide_eq_true hlt),
      Option.map_some, Option.map_some, UInt8.toNat_ofNat', Nat.mod_eq_of_lt hlt]

theorem Spells.mem (h : Spells base digits n) (hc : c ∈ digits) : ∃ d, Denotes base c d := by
  obtain ⟨ds, hds, -⟩ := h
  have heach := hds.imp fun c d hd => And.intro (⟨d, hd⟩ : ∃ d, Denotes base c d) hd
  exact ((List.forall₂_and_left _ _).1 heach).1 c hc

theorem KeyNumeral.mem (h : KeyNumeral text n) (hc : c ∈ text) :
    c = 'x' ∨ c = '+' ∨ ∃ d, Denotes 16 c d := by
  obtain ⟨k, rest, rfl, sign, digits, rfl, hsign, -, hspells⟩ := h
  rcases List.mem_append.1 hc with hmarker | hnumber
  · obtain ⟨marker, hmem, hc⟩ := List.mem_flatten.1 hmarker
    obtain rfl := List.eq_of_mem_replicate hmem
    rcases List.mem_pair.1 hc with rfl | rfl
    · exact .inr (.inr ⟨0, by decide⟩)
    · exact .inl rfl
  · rcases List.mem_append.1 hnumber with hplus | hdigit
    · rcases hsign with rfl | rfl
      · cases hplus
      · exact .inr (.inl (List.mem_singleton.1 hplus))
    · exact .inr (.inr (hspells.mem hdigit))

/-- A key is read from the ways to write a number of at most a byte, and from nothing else. So it
is refused if there is no digit, if a sign stands before a marker, if there is any other character,
and if the number is too great. -/
theorem key_spelled (text : String) :
    (∀ n, (key text).map UInt8.toNat = some n ↔ n ≤ 255 ∧ KeyNumeral text.toList n) ∧
    (key text = none ↔ ∀ n ≤ 255, ¬ KeyNumeral text.toList n) ∧
    (∀ k, text.toList = markers k → key text = none) ∧
    (∀ k rest, text.toList = markers k ++ '+' :: '0' :: 'x' :: rest → key text = none) ∧
    (∀ c ∈ text.toList, c ≠ 'x' → c ≠ '+' → (∀ d, ¬ Denotes 16 c d) → key text = none) ∧
    (∀ n, 255 < n → KeyNumeral text.toList n → key text = none) := by
  refine ⟨fun n => toNat_key_eq_some_iff, ?_, ?_, ?_, ?_, ?_⟩
  · rw [← Option.map_eq_none_iff (f := UInt8.toNat), Option.eq_none_iff_forall_ne_some]
    apply forall_congr'
    intro n
    rw [Ne, toNat_key_eq_some_iff, not_and]
  · intro k htext
    rw [key, htext, ← List.append_nil (markers k), dropMarkers_markers]
    rfl
  · intro k rest htext
    rw [key, htext, dropMarkers_markers]
    rfl
  · intro c hc hx hplus hdigit
    apply Option.eq_none_iff_forall_ne_some.2
    intro b hb
    rcases (numeral_of_key hb).mem hc with h | h | ⟨d, h⟩
    · exact hx h
    · exact hplus h
    · exact hdigit d h
  · intro n hn hnumeral
    rw [key_of_numeral hnumeral, Option.filter_some, if_neg (by simp; omega)]
    rfl

theorem key_spelled_marked : (key "0x0x+0fF").map UInt8.toNat = some 0xFF ∧ key "0x0x" = none ∧
    key "+0x5" = none ∧ key "0x-5" = none ∧ key "100" = none := by
  have hspells : Spells 16 ['0', 'f', 'F'] 0xFF :=
    ⟨[0, 15, 15], .cons (by decide) (.cons (by decide) (.cons (by decide) .nil)), by decide⟩
  have hgreat : Spells 16 ['1', '0', '0'] 0x100 :=
    ⟨[1, 0, 0], .cons (by decide) (.cons (by decide) (.cons (by decide) .nil)), by decide⟩
  have hminus (d : Nat) : ¬ Denotes 16 '-' d := by
    have hall : ∀ d < 16, ¬ Denotes 16 '-' d := by decide
    exact fun h => hall d h.1 h
  refine ⟨?_, ?_, ?_, ?_, ?_⟩
  · exact ((key_spelled "0x0x+0fF").1 0xFF).2
      ⟨by decide, 2, _, rfl, ['+'], _, rfl, .inr rfl, nofun, hspells⟩
  · exact (key_spelled "0x0x").2.2.1 2 rfl
  · exact (key_spelled "+0x5").2.2.2.1 0 ['5'] rfl
  · exact (key_spelled "0x-5").2.2.2.2.1 '-' (by decide) (by decide) (by decide) hminus
  · exact (key_spelled "100").2.2.2.2.2 0x100 (by decide)
      ⟨0, _, rfl, [], _, rfl, .inl rfl, nofun, hgreat⟩

end Chip8.CommandLine
