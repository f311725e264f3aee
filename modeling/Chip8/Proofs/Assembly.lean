import Chip8.Listing
import Chip8.Proofs.Numerals

namespace Chip8

open CommandLine

/-- An operand read from its text. Behind the hexadecimal marker two digits are a byte, and more are
an address. -/
def Operand.read : List Char → Option Operand
  | ['I'] => some .index
  | ['[', 'I', ']'] => some .pointed
  | ['D', 'T'] => some .delayTimer
  | ['S', 'T'] => some .soundTimer
  | ['K'] => some .key
  | ['F'] => some .glyph
  | ['B'] => some .decimal
  | 'V' :: digits => (digitsFrom 16 0 digits).map fun n => .register (.ofNat n)
  | '0' :: 'x' :: digits => (digitsFrom 16 0 digits).map fun n =>
      if digits.length = 2 then .byte (.ofNat n) else .address (.ofNat n)
  | digits => (digitsFrom 10 0 digits).map fun n => .height (.ofNat n)

def Mnemonic.meaning (m : Mnemonic) : Option Instruction :=
  match m.word, m.operands with
  | "SYS", [.address a] => some (.sys a)
  | "CLS", [] => some .clearScreen
  | "RET", [] => some .ret
  | "JP", [.address a] => some (.jump a)
  | "CALL", [.address a] => some (.call a)
  | "SE", [.register x, .byte n] => some (.skip (.holds x n))
  | "SNE", [.register x, .byte n] => some (.skip (.lacks x n))
  | "SE", [.register x, .register y] => some (.skip (.equal x y))
  | "LD", [.register x, .byte n] => some (.setByte x n)
  | "ADD", [.register x, .byte n] => some (.addByte x n)
  | "LD", [.register x, .register y] => some (.combine .copy x y)
  | "OR", [.register x, .register y] => some (.combine .or x y)
  | "AND", [.register x, .register y] => some (.combine .and x y)
  | "XOR", [.register x, .register y] => some (.combine .xor x y)
  | "ADD", [.register x, .register y] => some (.combine .add x y)
  | "SUB", [.register x, .register y] => some (.combine .sub x y)
  | "SHR", [.register x, .register y] => some (.combine .shiftRight x y)
  | "SUBN", [.register x, .register y] => some (.combine .subFrom x y)
  | "SHL", [.register x, .register y] => some (.combine .shiftLeft x y)
  | "SNE", [.register x, .register y] => some (.skip (.differ x y))
  | "LD", [.index, .address a] => some (.setIndex a)
  | "JP", [.register 0, .address a] => some (.jumpOffset a)
  | "RND", [.register x, .byte mask] => some (.random x mask)
  | "DRW", [.register x, .register y, .height n] => some (.draw x y n)
  | "SKP", [.register x] => some (.skip (.keyDown x))
  | "SKNP", [.register x] => some (.skip (.keyUp x))
  | "LD", [.register x, .delayTimer] => some (.readDelay x)
  | "LD", [.register x, .key] => some (.awaitKey x)
  | "LD", [.delayTimer, .register x] => some (.setDelay x)
  | "LD", [.soundTimer, .register x] => some (.setSound x)
  | "ADD", [.index, .register x] => some (.addIndex x)
  | "LD", [.glyph, .register x] => some (.pointGlyph x)
  | "LD", [.decimal, .register x] => some (.storeDecimal x)
  | "LD", [.pointed, .register x] => some (.store x)
  | "LD", [.register x, .pointed] => some (.load x)
  | _, _ => none

def Plain (cs : List Char) : Prop := ∀ c ∈ cs, c ≠ ',' ∧ c ≠ ' ' ∧ c ≠ '\n'

instance (cs : List Char) : Decidable (Plain cs) :=
  List.decidableBAll (fun c => c ≠ ',' ∧ c ≠ ' ' ∧ c ≠ '\n') cs

theorem Plain.newline_not_mem {cs : List Char} (h : Plain cs) : '\n' ∉ cs :=
  fun hmem => (h '\n' hmem).2.2 rfl

/-- The word of a line of assembly and the operands behind it. Commas only go with the blanks. -/
def tokens (line : List Char) : List (List Char) := (line.filter (· ≠ ',')).splitOn ' '

def Mnemonic.read (line : String) : Option Mnemonic :=
  match tokens line.toList with
  | [] => none
  | word :: operands => (operands.mapM Operand.read).map fun operands => ⟨.ofList word, operands⟩

def Instruction.assemble (line : String) : Option Instruction :=
  (Mnemonic.read line).bind Mnemonic.meaning

theorem Instruction.meaning_mnemonic (i : Instruction) : i.mnemonic.meaning = some i := by
  cases i with
  | skip c => cases c with
    | _ => rfl
  | combine op => cases op with
    | _ => rfl
  | _ => rfl

namespace Operand

variable {cs : List Char} {width : Nat}

theorem read_of_digits (h : ∀ c ∈ cs, ∃ k < 10, c = k.digitChar) :
    read cs = (digitsFrom 10 0 cs).map fun n => .height (.ofNat n) := by
  have hno {c : Char} (hc : ∀ k < 10, c ≠ k.digitChar) : c ∉ cs := by
    intro hmem
    obtain ⟨k, hk, rfl⟩ := h c hmem
    exact hc k hk rfl
  unfold read
  split
  case h_10 => rfl
  case h_9 => exact absurd (List.mem_cons_of_mem _ List.mem_cons_self) (hno (by decide))
  all_goals exact absurd List.mem_cons_self (hno (by decide))

theorem toList_register (x : UInt8) : (text (.register x)).toList =
    'V' :: (Text.hexDigits 1 x.toNat).map Char.toUpper := by
  simp [text, registerName, Text.upperHex]

theorem toList_height (n : UInt8) : (text (.height n)).toList = Nat.toDigits 10 n.toNat := by
  rw [text, Nat.repr_eq_ofList_toDigits, String.toList_ofList]

theorem read_prefixedHex (hwidth : 2 < width) (a : UInt16) :
    read (Text.prefixedHex width a.toNat).toList = some (.address a) := by
  have hlength : (Text.hexDigits width a.toNat).length ≠ 2 := by
    rw [Text.length_hexDigits]
    omega
  rw [Text.toList_prefixedHex, read, Text.digitsFrom_hexDigits, Option.map_some, if_neg hlength,
    UInt16.ofNat_toNat]

theorem read_text (o : Operand) : read o.text.toList = some o := by
  cases o with
  | index | pointed | delayTimer | soundTimer | key | glyph | decimal => rfl
  | register x =>
      rw [toList_register, read, Text.digitsFrom_upperHexDigits, Option.map_some, UInt8.ofNat_toNat]
  | byte n =>
      have hlength : (Text.hexDigits 2 n.toNat).length = 2 :=
        Text.length_hexDigits_of_lt (by decide) n.toNat_lt
      rw [text, Text.toList_prefixedHex, read, Text.digitsFrom_hexDigits, Option.map_some,
        if_pos hlength, UInt8.ofNat_toNat]
  | address a => exact read_prefixedHex (by decide) a
  | height n =>
      rw [toList_height, read_of_digits fun c => Text.mem_toDigits (by decide),
        digitsFrom_toDigits (by decide) (by decide), Option.map_some, UInt8.ofNat_toNat]

theorem plain_of_digits (h : ∀ c ∈ cs, ∃ k < 16, c = k.digitChar) :
    Plain cs ∧ Plain (cs.map Char.toUpper) := by
  have hall : ∀ k < 16, (k.digitChar ≠ ',' ∧ k.digitChar ≠ ' ' ∧ k.digitChar ≠ '\n') ∧
      k.digitChar.toUpper ≠ ',' ∧ k.digitChar.toUpper ≠ ' ' ∧ k.digitChar.toUpper ≠ '\n' := by
    decide
  constructor
  · intro c hc
    obtain ⟨k, hk, rfl⟩ := h c hc
    exact (hall k hk).1
  · intro c hc
    obtain ⟨d, hd, rfl⟩ := List.mem_map.1 hc
    obtain ⟨k, hk, rfl⟩ := h d hd
    exact (hall k hk).2

theorem plain_prefixedHex (width n : Nat) : Plain (Text.prefixedHex width n).toList := by
  rw [Text.toList_prefixedHex]
  exact List.forall_mem_cons.2 ⟨by decide, List.forall_mem_cons.2
    ⟨by decide, (plain_of_digits fun c => Text.mem_hexDigits).1⟩⟩

theorem plain_text (o : Operand) : Plain o.text.toList := by
  cases o with
  | index | pointed | delayTimer | soundTimer | key | glyph | decimal => decide
  | register x =>
      rw [toList_register]
      exact List.forall_mem_cons.2 ⟨by decide, (plain_of_digits fun c => Text.mem_hexDigits).2⟩
  | byte n => exact plain_prefixedHex 2 n.toNat
  | address a => exact plain_prefixedHex 3 a.toNat
  | height n =>
      rw [toList_height]
      refine (plain_of_digits fun c hc => ?_).1
      obtain ⟨k, hk, hdigit⟩ := Text.mem_toDigits (by decide) hc
      exact ⟨k, by omega, hdigit⟩

end Operand

section Tokens

variable {word cs : List Char} {texts : List (List Char)}

theorem Plain.filter_eq (h : Plain cs) : cs.filter (· ≠ ',') = cs := by
  rw [List.filter_eq_self]
  intro c hc
  exact decide_eq_true (h c hc).1

theorem filter_intercalate (h : ∀ cs ∈ texts, Plain cs) :
    ([',', ' '].intercalate texts).filter (· ≠ ',') = [' '].intercalate texts := by
  induction texts with
  | nil => rfl
  | cons cs texts ih =>
      obtain ⟨hcs, hrest⟩ := List.forall_mem_cons.1 h
      cases texts with
      | nil => rw [List.intercalate_singleton, List.intercalate_singleton, hcs.filter_eq]
      | cons ds texts =>
          rw [List.intercalate_cons_cons, List.intercalate_cons_cons, List.filter_append,
            List.filter_append, hcs.filter_eq, ih hrest]
          rfl

theorem splitOn_of_plain (h : ∀ cs ∈ texts, Plain cs) (hne : texts ≠ []) :
    ([' '].intercalate texts).splitOn ' ' = texts :=
  List.splitOn_intercalate ' ' (fun cs hcs hc => (h cs hcs ' ' hc).2.1 rfl) hne

theorem exists_of_mem_intercalate {c : Char} {sep : List Char} (h : c ∈ sep.intercalate texts) :
    c ∈ sep ∨ ∃ cs ∈ texts, c ∈ cs := by
  induction texts with
  | nil => exact absurd h List.not_mem_nil
  | cons cs texts ih =>
      cases texts with
      | nil =>
          rw [List.intercalate_singleton] at h
          exact .inr ⟨cs, List.mem_cons_self, h⟩
      | cons ds texts =>
          rw [List.intercalate_cons_cons, List.mem_append, List.mem_append] at h
          rcases h with (h | h) | h
          · exact .inr ⟨cs, List.mem_cons_self, h⟩
          · exact .inl h
          · exact (ih h).imp_right fun ⟨es, hes, hc⟩ => ⟨es, List.mem_cons_of_mem cs hes, hc⟩

theorem tokens_word (h : Plain word) : tokens word = [word] := by
  have hsplit := splitOn_of_plain (List.forall_mem_singleton.2 h) (List.cons_ne_nil word [])
  rw [tokens, h.filter_eq]
  rwa [List.intercalate_singleton] at hsplit

theorem tokens_line (hword : Plain word) (h : ∀ cs ∈ texts, Plain cs) (hne : texts ≠ []) :
    tokens (word ++ [' '] ++ [',', ' '].intercalate texts) = word :: texts := by
  obtain ⟨cs, texts, rfl⟩ := List.exists_cons_of_ne_nil hne
  have hsplit := splitOn_of_plain (List.forall_mem_cons.2 ⟨hword, h⟩) (List.cons_ne_nil word _)
  rw [tokens, List.filter_append, List.filter_append, hword.filter_eq, filter_intercalate h]
  rwa [List.intercalate_cons_cons] at hsplit

end Tokens

namespace Mnemonic

variable {m : Mnemonic}

theorem toList_text_cons (word : String) (o : Operand) (operands : List Operand) :
    (text ⟨word, o :: operands⟩).toList = word.toList ++ [' '] ++
      [',', ' '].intercalate ((o :: operands).map fun o => o.text.toList) := by
  simp [text, Function.comp_def]

theorem tokens_text (h : Plain m.word.toList) :
    tokens m.text.toList = m.word.toList :: m.operands.map fun o => o.text.toList := by
  obtain ⟨word, operands⟩ := m
  cases operands with
  | nil => exact tokens_word h
  | cons o operands =>
      rw [toList_text_cons]
      apply tokens_line h
      · intro cs hcs
        obtain ⟨o, -, rfl⟩ := List.mem_map.1 hcs
        exact o.plain_text
      · exact List.cons_ne_nil _ _

theorem read_text (h : Plain m.word.toList) : read m.text = some m := by
  have hoperands : (m.operands.map fun o => o.text.toList).mapM Operand.read = some m.operands := by
    have hread : (Operand.read ∘ fun o => o.text.toList) = some := funext Operand.read_text
    rw [List.mapM_map, hread]
    exact List.mapM_pure.trans (congrArg some (List.map_id _))
  rw [read, tokens_text h]
  simp only [hoperands, Option.map_some, String.ofList_toList]

theorem newline_not_mem_text (h : Plain m.word.toList) : '\n' ∉ m.text.toList := by
  obtain ⟨word, operands⟩ := m
  cases operands with
  | nil => exact h.newline_not_mem
  | cons o operands =>
      rw [toList_text_cons, List.mem_append, List.mem_append, not_or, not_or]
      refine ⟨⟨h.newline_not_mem, by decide⟩, ?_⟩
      intro hmem
      obtain hsep | ⟨cs, hcs, hc⟩ := exists_of_mem_intercalate hmem
      · exact absurd hsep (by decide)
      · obtain ⟨o, -, rfl⟩ := List.mem_map.1 hcs
        exact o.plain_text.newline_not_mem hc

end Mnemonic

namespace Instruction

theorem plain_word (i : Instruction) : Plain i.mnemonic.word.toList := by
  cases i with
  | skip c => cases c with
    | _ =>
        dsimp only [mnemonic, Condition.mnemonic]
        decide
  | combine op => cases op with
    | _ =>
        dsimp only [mnemonic, Arithmetic.word]
        decide
  | _ =>
      dsimp only [mnemonic]
      decide

theorem assemble_text (i : Instruction) : assemble i.text = some i := by
  rw [assemble, text, Mnemonic.read_text i.plain_word, Option.bind_some, meaning_mnemonic]

theorem assemble_data (w : Opcode) : assemble ("DB " ++ Text.prefixedHex 4 w.toNat) = none := by
  have hline : ("DB " ++ Text.prefixedHex 4 w.toNat).toList =
      "DB".toList ++ [' '] ++ [',', ' '].intercalate [(Text.prefixedHex 4 w.toNat).toList] := by
    simp
  have hword : Plain "DB".toList := by decide
  have htokens := tokens_line hword
    (List.forall_mem_singleton.2 (Operand.plain_prefixedHex 4 w.toNat)) (List.cons_ne_nil _ [])
  rw [assemble, Mnemonic.read, hline, htokens]
  simp only [List.mapM_cons, List.mapM_nil, Operand.read_prefixedHex (show 2 < 4 by decide) w]
  rfl

/-- No two instructions have one text, whatever their operands: a line of assembly can be read in
one way only. So a listing is read back as the instructions that it shows. -/
theorem text_unambiguous (i j : Instruction) :
    (i.text = j.text ↔ i = j) ∧ assemble i.text = some i ∧
      ∀ line : Listing.Line, assemble line.statement = line.instruction := by
  refine ⟨⟨?_, congrArg text⟩, assemble_text i, ?_⟩
  · intro h
    have hread := congrArg assemble h
    rwa [assemble_text, assemble_text, Option.some.injEq] at hread
  · intro line
    rw [Listing.Line.statement]
    cases line.instruction with
    | none => exact assemble_data line.opcode
    | some i => exact assemble_text i

-- Before the comma the font, behind it the last register.
example : assemble "LD F, VF" = some (.pointGlyph 0xF) := by decide

end Instruction

theorem Listing.Line.newline_not_mem_text (line : Line) : '\n' ∉ line.text.toList := by
  have hhex (width n : Nat) := (Operand.plain_prefixedHex width n).newline_not_mem
  have hopcode : '\n' ∉ (Text.hexDigits 4 line.opcode.toNat).map Char.toUpper :=
    (Operand.plain_of_digits fun c => Text.mem_hexDigits).2.newline_not_mem
  have hstatement : '\n' ∉ line.statement.toList := by
    rw [statement]
    cases line.instruction with
    | none => simp [hhex]
    | some i => exact Mnemonic.newline_not_mem_text i.plain_word
  simp [text, Text.upperHex, hhex, hopcode, hstatement]

end Chip8
