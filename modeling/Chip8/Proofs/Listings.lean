import Chip8.CommandLine.Report
import Chip8.Proofs.Decoding
import Chip8.Proofs.Fetching
import Chip8.Proofs.Numerals
import Mathlib.Data.List.Induction

namespace Chip8

/-- The bytes of a program, filled up to whole words. -/
def padded (p : Array UInt8) : List UInt8 := p.toList ++ if p.size % 2 = 1 then [0] else []

def Opcode.bytes (w : Opcode) : List UInt8 := [w.highByte, w.nn]

def Listing.print (lines : List Listing.Line) : String :=
  String.join (lines.map fun line => line.text ++ "\n")

variable {p q : Array UInt8} {origin : UInt16} {k : Nat}

theorem Opcode.bytes_ofBytes (high low : UInt8) : (ofBytes high low).bytes = [high, low] := by
  have hhigh : (ofBytes high low).highByte = high := by
    have := high.toNat_lt
    have := low.toNat_lt
    apply UInt8.toNat_inj.1
    simp only [highByte, UInt16.toNat_toUInt8, UInt16.toNat_div, toNat_ofBytes, UInt16.reduceToNat]
    omega
  rw [bytes, hhigh, nn_ofBytes]

theorem listing_cons_cons (high low : UInt8) (rest : List UInt8) (origin : UInt16) :
    listing (high :: low :: rest).toArray origin =
      ⟨origin, .ofBytes high low⟩ :: listing rest.toArray (origin + 2) := by
  have hcount : ((high :: low :: rest).toArray.size + 1) / 2 = (rest.toArray.size + 1) / 2 + 1 := by
    simp only [List.size_toArray, List.length_cons]
    omega
  rw [listing, hcount, List.range_succ_eq_map, List.map_cons, List.map_map]
  congr 1
  · simp
  · apply List.map_congr_left
    intro k hk
    have haddress : origin + UInt16.ofNat (2 * k + 2) = origin + 2 + UInt16.ofNat (2 * k) := by
      rw [Nat.add_comm, UInt16.ofNat_add, ← UInt16.add_assoc]
      rfl
    simp only [Function.comp_apply, Nat.succ_eq_add_one, Nat.mul_succ, haddress,
      Array.getD_eq_getD_getElem?, List.getElem?_toArray, List.getElem?_cons_succ]

theorem bytes_listing (p : List UInt8) (origin : UInt16) :
    (listing p.toArray origin).flatMap (fun line => line.opcode.bytes) = padded p.toArray := by
  induction p using List.twoStepInduction generalizing origin with
  | nil => rfl
  | singleton high =>
      have hlisting : listing #[high] origin = [⟨origin, .ofBytes high 0⟩] := by simp [listing]
      rw [hlisting, List.flatMap_singleton, Opcode.bytes_ofBytes]
      rfl
  | cons_cons high low rest ih _ =>
      have hparity : (rest.length + 1 + 1) % 2 = rest.length % 2 := by omega
      rw [listing_cons_cons, List.flatMap_cons, ih, Opcode.bytes_ofBytes]
      simp only [padded, List.size_toArray, List.length_cons, hparity]
      rfl

theorem length_padded (p : Array UInt8) : (padded p).length = 2 * ((p.size + 1) / 2) := by
  rw [padded, List.length_append, Array.length_toList]
  split
  · rw [List.length_singleton]
    omega
  · rw [List.length_nil]
    omega

theorem getD_padded (p : Array UInt8) (k : Nat) : (padded p).getD k 0 = p.getD k 0 := by
  rw [padded, List.getD_eq_getElem?_getD, List.getElem?_append, Array.getD_eq_getD_getElem?,
    Array.getElem?_toList, Array.length_toList]
  by_cases h : k < p.size
  · rw [if_pos h]
  · rw [if_neg h, Array.getElem?_eq_none (Nat.le_of_not_lt h)]
    split
    · cases k - p.size <;> rfl
    · rfl

theorem listing_eq_iff : listing p origin = listing q origin ↔ padded p = padded q := by
  constructor
  · intro h
    rw [← bytes_listing p.toList origin, ← bytes_listing q.toList origin]
    exact congrArg _ h
  · intro h
    have hcount : (p.size + 1) / 2 = (q.size + 1) / 2 := by
      have hlength := congrArg List.length h
      rw [length_padded, length_padded] at hlength
      omega
    have hget (k : Nat) : p.getD k 0 = q.getD k 0 := by rw [← getD_padded, h, getD_padded]
    simp only [listing, hcount, hget]

theorem length_listing : (listing p origin).length = (p.size + 1) / 2 := by
  rw [listing, List.length_map, List.length_range]

theorem eq_of_getElem?_listing {line : Listing.Line} (h : (listing p origin)[k]? = some line) :
    line = ⟨origin + UInt16.ofNat (2 * k), .ofBytes (p.getD (2 * k) 0) (p.getD (2 * k + 1) 0)⟩ := by
  obtain ⟨hk, -⟩ := List.getElem?_eq_some_iff.1 h
  rw [length_listing] at hk
  rw [getElem?_listing p origin hk] at h
  exact (Option.some.inj h).symm

namespace Listing

variable {line line' : Line} {lines lines' : List Line} {rest rest' : List Char}

theorem toList_text (line : Line) : line.text.toList =
    (Text.prefixedHex 3 line.address.toNat ++ ": ").toList ++
      ((Text.hexDigits 4 line.opcode.toNat).map Char.toUpper ++
        ("  " ++ line.statement).toList) := by
  simp only [Line.text, Text.upperHex, String.toList_append, String.toList_ofList,
    List.append_assoc]

theorem text_append_inj (ha : line.address = line'.address)
    (h : line.text.toList ++ rest = line'.text.toList ++ rest') : line = line' ∧ rest = rest' := by
  have hlength (w : Opcode) : ((Text.hexDigits 4 w.toNat).map Char.toUpper).length = 4 := by
    rw [List.length_map, Text.length_hexDigits_of_lt (by decide) w.toNat_lt]
  have hopcode : line.opcode = line'.opcode := by
    rw [toList_text, toList_text, ha, List.append_assoc, List.append_assoc, List.append_assoc,
      List.append_assoc] at h
    have hdigits := (List.append_inj (List.append_cancel_left h) (by rw [hlength, hlength])).1
    exact UInt16.toNat_inj.1 (Text.upperHexDigits_inj.1 hdigits)
  have hline : line = line' := by
    cases line
    cases line'
    cases ha
    cases hopcode
    rfl
  subst hline
  exact ⟨rfl, List.append_cancel_left h⟩

theorem toList_print_cons : (print (line :: lines)).toList =
    line.text.toList ++ '\n' :: (print lines).toList := by
  simp [print]

theorem print_cons_ne_nil : print (line :: lines) ≠ print [] := by
  intro h
  have hlist := congrArg String.toList h
  rw [toList_print_cons] at hlist
  exact List.append_ne_nil_of_right_ne_nil _ (List.cons_ne_nil _ _) hlist

theorem print_inj
    (ha : ∀ (k : Nat) (line line' : Line), lines[k]? = some line → lines'[k]? = some line' →
      line.address = line'.address)
    (h : print lines = print lines') : lines = lines' := by
  induction lines generalizing lines' with
  | nil =>
      cases lines' with
      | nil => rfl
      | cons line' lines' => exact absurd h.symm print_cons_ne_nil
  | cons line lines ih =>
      cases lines' with
      | nil => exact absurd h print_cons_ne_nil
      | cons line' lines' =>
          have hlist := congrArg String.toList h
          rw [toList_print_cons, toList_print_cons] at hlist
          obtain ⟨rfl, hrest⟩ := text_append_inj (ha 0 line line' rfl rfl) hlist
          rw [ih (fun k => ha (k + 1)) (String.toList_inj.1 (List.cons.inj hrest).2)]

end Listing

theorem print_listing_eq_iff :
    Listing.print (listing p origin) = Listing.print (listing q origin) ↔ padded p = padded q := by
  rw [← listing_eq_iff]
  constructor
  · intro h
    refine Listing.print_inj ?_ h
    intro k line line' hline hline'
    rw [eq_of_getElem?_listing hline, eq_of_getElem?_listing hline']
  · exact congrArg Listing.print

/-- A listing has one line for every word of the program, an odd last byte being filled up by a
zero, at the address where the word would stand. Read as bytes its opcodes are the program again;
and two programs are printed alike only if they are the same, filled up to whole words. -/
theorem listing_faithful (p : Array UInt8) (origin : UInt16) :
    (listing p origin).length = (p.size + 1) / 2 ∧
    (∀ n line, (listing p origin)[n]? = some line →
      line.address.toNat = (origin.toNat + 2 * n) % 0x10000 ∧
      line.instruction = Instruction.decode line.opcode ∧
      line.instruction = Instruction.ofBytes (p.getD (2 * n) 0) (p.getD (2 * n + 1) 0)) ∧
    (listing p origin).flatMap (fun line => line.opcode.bytes) = padded p ∧
    (∀ q, Listing.print (listing p origin) = Listing.print (listing q origin) ↔
      padded p = padded q) ∧
    ∀ q, CommandLine.listingText p = CommandLine.listingText q ↔ padded p = padded q := by
  refine ⟨length_listing, ?_, ?_, ?_, ?_⟩
  · intro n line hline
    cases eq_of_getElem?_listing hline
    refine ⟨?_, rfl, ?_⟩
    · simp only [UInt16.toNat_add, UInt16.toNat_ofNat']
      omega
    · exact (Instruction.ofBytes_eq _ _).symm
  · exact bytes_listing p.toList origin
  · exact fun q => print_listing_eq_iff
  · exact fun q => print_listing_eq_iff

def oddBytes : Array UInt8 :=
  -- An instruction, a word that is none, and half a word.
  #[0x6A, 0x02, 0xFF, 0xFF, 0x12]

theorem listing_faithful_wrapping :
    (listing oddBytes 0xFFFE).length = 3 ∧ (listing oddBytes 0xFFFE)[1]? = some ⟨0, 0xFFFF⟩ ∧
      Instruction.ofBytes 0xFF 0xFF = none ∧
      (listing oddBytes 0xFFFE).flatMap (fun line => line.opcode.bytes) =
        [0x6A, 0x02, 0xFF, 0xFF, 0x12, 0x00] ∧
      Listing.print (listing oddBytes 0xFFFE) = Listing.print (listing (oddBytes.push 0) 0xFFFE) ∧
      Listing.print (listing oddBytes 0xFFFE) ≠
        Listing.print (listing (oddBytes.push 1) 0xFFFE) := by
  obtain ⟨hlength, hlines, hbytes, hprint, -⟩ := listing_faithful oddBytes 0xFFFE
  have hline : (listing oddBytes 0xFFFE)[1]? = some ⟨0, 0xFFFF⟩ := by decide
  obtain ⟨-, hword, hpair⟩ := hlines 1 ⟨0, 0xFFFF⟩ hline
  refine ⟨hlength.trans (by decide), hline, ?_, hbytes.trans (by decide), (hprint _).2 (by decide),
    mt (hprint _).1 (by decide)⟩
  exact hpair.symm.trans (hword.trans (by decide))

end Chip8
