import Chip8.CommandLine.Report
import Chip8.Proofs.Assembly
import Chip8.Proofs.Halting
import Chip8.Proofs.Pictures

namespace Chip8.CommandLine

variable {m : Machine}

/-- A line that tells what a program is at, where it stands, with a fourth hexadecimal digit only
beyond the address space, and whether there is a sound. -/
def Tells (m : Machine) (line : String) : Prop :=
  ∃ word digits sound,
    line = "status: " ++ word ++ ", pc: 0x" ++ String.ofList digits ++ ", sound: " ++ sound ∧
    word = (match m.state with
      | .running => "Running"
      | .awaitingKey _ => "AwaitingKey"
      | .halted _ => "Halted") ∧
    digits.length = (if m.pc < 0x1000 then 3 else 4) ∧
    (∀ c ∈ digits, ∃ k < 16, c = k.digitChar) ∧ digitsFrom 16 0 digits = some m.pc.toNat ∧
    sound = if 0 < m.timers.sound then "on" else "off"

/-- An output that shows a machine: a line for each row of its screen with a mark for each pixel,
and then the line that tells how it stands. -/
def Shows (m : Machine) (output : String) : Prop :=
  ∃ rows line, output.toList.splitOn '\n' = rows ++ [String.toList line, []] ∧ rows.length = 32 ∧
    (∀ y : Fin 32, ∃ marks, rows[y.val]? = some marks ∧ marks.length = 64 ∧
      ∀ x : Fin 64, marks[x.val]? = some (if m.screen.get x y then '#' else ' ')) ∧
    Tells m line

theorem length_addressDigits (a : UInt16) :
    (Text.hexDigits 3 a.toNat).length = if a < 0x1000 then 3 else 4 := by
  split
  next h => exact Text.length_hexDigits_of_lt (by decide) h
  next h =>
    have hlow : ¬ (Nat.toDigits 16 a.toNat).length ≤ 3 :=
      mt (Nat.length_toDigits_le_iff (by decide) (by decide)).1 h
    have hhigh : (Nat.toDigits 16 a.toNat).length ≤ 4 :=
      (Nat.length_toDigits_le_iff (by decide) (by decide)).2 a.toNat_lt
    rw [Text.length_hexDigits]
    omega

def status (m : Machine) : String :=
  "status: " ++ m.state.word ++ ", pc: " ++ Text.prefixedHex 3 m.pc.toNat ++ ", sound: "
    ++ if m.timers.isSounding then "on" else "off"

theorem toList_statusLine (m : Machine) : (statusLine m).toList = (status m).toList ++ ['\n'] := by
  rw [show statusLine m = status m ++ "\n" from rfl, String.toList_append]
  rfl

theorem tells_status (m : Machine) : Tells m (status m) := by
  refine ⟨m.state.word, Text.hexDigits 3 m.pc.toNat, _, ?_, ?_, length_addressDigits m.pc,
    fun c => Text.mem_hexDigits, Text.digitsFrom_hexDigits 3 _, rfl⟩
  · have hpc : ", pc: 0x" = ", pc: " ++ "0x" := rfl
    simp only [status, Text.prefixedHex, Text.hex, Timers.isSounding, decide_eq_true_eq, hpc,
      String.append_assoc]
  · cases m.state with
    | running | awaitingKey | halted => rfl

theorem newline_not_mem_status (m : Machine) : '\n' ∉ (status m).toList := by
  have hword : '\n' ∉ m.state.word.toList := by
    cases m.state with
    | running | awaitingKey | halted => simp [RunState.word]
  have hpc := (Operand.plain_prefixedHex 3 m.pc.toNat).newline_not_mem
  have hsound : '\n' ∉ (if m.timers.isSounding then "on" else "off").toList := by
    split
    · simp
    · simp
  simp [status, hword, hpc, hsound]

theorem mem_statusLine : 'H' ∈ (statusLine m).toList ↔ m.haltReason.isSome := by
  have hhex (width n : Nat) : 'H' ∉ Text.hexDigits width n := by
    intro h
    obtain ⟨k, hk, hc⟩ := Text.mem_hexDigits h
    revert k
    decide
  have hsound : 'H' ∉ (if m.timers.isSounding then "on" else "off").toList := by
    split
    · simp
    · simp
  have hword : 'H' ∈ m.state.word.toList ↔ m.haltReason.isSome := by
    rw [Machine.haltReason]
    cases m.state with
    | running | awaitingKey | halted => simp [RunState.word]
  simp [statusLine, Text.prefixedHex, Text.hex, hhex, hsound, hword]

/-- The only capital `H` that can stand in a status line is that of a halt. -/
theorem halted_infix_statusLine :
    "Halted".toList <:+: (statusLine m).toList ↔ m.haltReason.isSome := by
  constructor
  · intro h
    exact mem_statusLine.1 (h.subset (by simp))
  · intro h
    obtain ⟨f, hf⟩ := Option.isSome_iff_exists.1 h
    have hword : m.state.word = "Halted" := by
      rw [Machine.haltReason_eq_some_iff.1 hf, RunState.word]
    simp only [statusLine, hword, String.toList_append, List.append_assoc]
    exact (List.prefix_append _ _).isInfix.trans (List.suffix_append _ _).isInfix

theorem splitOn_output (m : Machine) : (m.screen.text ++ statusLine m).toList.splitOn '\n' =
    (List.range 32).map m.screen.row ++ [(status m).toList, []] := by
  have hlines : ∀ line ∈ (List.range 32).map m.screen.row ++ [(status m).toList], '\n' ∉ line := by
    rw [List.forall_mem_append, List.forall_mem_map]
    exact ⟨fun y _ => m.screen.newline_not_mem_row y,
      List.forall_mem_singleton.2 (newline_not_mem_status m)⟩
  have hsplit := splitOn_ended hlines
  rw [List.flatMap_append, List.flatMap_map, List.flatMap_singleton, ← Screen.toList_text,
    ← toList_statusLine, ← String.toList_append, List.append_assoc] at hsplit
  exact hsplit

theorem shows_output (m : Machine) : Shows m (m.screen.text ++ statusLine m) := by
  refine ⟨_, _, splitOn_output m, by simp, ?_, tells_status m⟩
  intro y
  refine ⟨m.screen.row y, ?_, m.screen.length_row y, fun x => Screen.getElem?_row x.isLt⟩
  rw [List.getElem?_map, List.getElem?_range y.isLt]
  rfl

theorem toList_listingText (p : Array UInt8) : (listingText p).toList =
    ((listing p 0x200).map fun line => line.text.toList).flatMap (· ++ ['\n']) := by
  simp [listingText, List.flatMap_map]

theorem splitOn_listingText (p : Array UInt8) : (listingText p).toList.splitOn '\n' =
    (listing p 0x200).map (fun line => line.text.toList) ++ [[]] := by
  rw [toList_listingText, splitOn_ended]
  rw [List.forall_mem_map]
  exact fun line _ => line.newline_not_mem_text

end Chip8.CommandLine
