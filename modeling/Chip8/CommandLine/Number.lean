namespace Chip8.CommandLine

def digitValue (base : Nat) (c : Char) : Option Nat :=
  let value :=
    if '0' ≤ c ∧ c ≤ '9' then some (c.toNat - 48)
    else if 'a' ≤ c ∧ c ≤ 'f' then some (c.toNat - 87)
    else if 'A' ≤ c ∧ c ≤ 'F' then some (c.toNat - 55)
    else none
  value.filter (· < base)

def digitsFrom (base : Nat) : Nat → List Char → Option Nat
  | n, [] => some n
  | n, c :: cs =>
      match digitValue base c with
      | some d => digitsFrom base (base * n + d) cs
      | none => none

/-- A number below a bound: at most one plus sign, then at least one digit and nothing else. -/
def number (base bound : Nat) (text : List Char) : Option Nat :=
  let digits := match text with
    | '+' :: rest => rest
    | _ => text
  if digits.isEmpty then none else (digitsFrom base 0 digits).filter (· < bound)

def dropMarkers : List Char → List Char
  | '0' :: 'x' :: rest => dropMarkers rest
  | text => text

def key (text : String) : Option UInt8 :=
  (number 16 0x100 (dropMarkers text.toList)).map UInt8.ofNat

end Chip8.CommandLine
