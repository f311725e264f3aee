namespace Chip8.Text

/-- The hexadecimal digits of a number, lower-case, filled up with zeros on the left to at least
`width` digits. -/
def hexDigits (width n : Nat) : List Char := (Nat.toDigits 16 n).leftpad width '0'

def hex (width n : Nat) : String := String.ofList (hexDigits width n)

def upperHex (width n : Nat) : String := String.ofList ((hexDigits width n).map Char.toUpper)

def prefixedHex (width n : Nat) : String := "0x" ++ hex width n

end Chip8.Text
