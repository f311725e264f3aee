import Chip8.CommandLine.Argument
import Chip8.CommandLine.Number
import Chip8.Dialect

namespace Chip8.CommandLine

structure Options where
  frames : Nat
  cyclesPerFrame : Nat
  dialect : Dialect
  seed : Option UInt64
  keys : List UInt8
  verbosity : Nat
  disassemble : Bool
  input : String
  deriving DecidableEq, Repr

def values (s : Setting) (arguments : List Argument) : List String :=
  arguments.filterMap fun
    | .setting t value => if s = t then some value else none
    | _ => none

def count (s : Switch) (arguments : List Argument) : Nat := arguments.countP (· == .switch s)

def checkValue {α : Type} (s : Setting) (reader : String → Option α) (value : String) :
    Except UsageError α :=
  match reader value with
  | some a => .ok a
  | none => .error (.invalidValue s value)

def single {α : Type} (s : Setting) (reader : String → Option α) (arguments : List Argument) :
    Except UsageError (Option α) :=
  match values s arguments with
  | [] => .ok none
  | [value] => (checkValue s reader value).map some
  | _ => .error (.repeatedSetting s)

/-- Every value is checked before any is used. Unless told otherwise, a run has sixty frames of ten
steps each, in the first dialect and without a seed. -/
def Options.ofArguments (arguments : List Argument) : Except UsageError Options := do
  let frames ← single .frames (number 10 0x100000000 ·.toList) arguments
  let cyclesPerFrame ← single .cyclesPerFrame (number 10 0x100000000 ·.toList) arguments
  let dialect ← single .dialect (Dialect.ofName · |>.toOption) arguments
  let seed ← single .seed (number 10 0x10000000000000000 ·.toList) arguments
  let keys ← (values .key arguments).mapM (checkValue .key key)
  if 1 < count .disassemble arguments then throw (.repeatedSwitch .disassemble)
  match arguments.filterMap fun | .input path => some path | _ => none with
  | [] => throw .missingInput
  | [input] =>
      return {
        frames := frames.getD 60
        cyclesPerFrame := cyclesPerFrame.getD 10
        dialect := dialect.getD .cosmacVip
        seed := seed.map UInt64.ofNat
        keys
        verbosity := count .verbose arguments
        disassemble := count .disassemble arguments == 1
        input }
  | _ :: path :: _ => throw (.repeatedInput path)

def Options.parse (words : List String) : Except UsageError Options := do
  Options.ofArguments (← readWords none words)

end Chip8.CommandLine
