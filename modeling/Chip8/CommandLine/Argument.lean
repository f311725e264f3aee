namespace Chip8.CommandLine

inductive Setting
  | frames
  | cyclesPerFrame
  | dialect
  | seed
  | key
  deriving DecidableEq, Repr

inductive Switch
  | verbose
  | disassemble
  deriving DecidableEq, Repr

inductive Argument
  | setting (s : Setting) (value : String)
  | switch (s : Switch)
  | input (path : String)
  deriving DecidableEq, Repr

inductive UsageError
  | unknownOption (text : String)
  | missingValue (s : Setting)
  | unexpectedValue (s : Switch)
  | invalidValue (s : Setting) (value : String)
  | repeatedSetting (s : Setting)
  | repeatedSwitch (s : Switch)
  | missingInput
  | repeatedInput (path : String)
  deriving DecidableEq, Repr

def Setting.name : Setting → String
  | .frames => "frames"
  | .cyclesPerFrame => "cycles-per-frame"
  | .dialect => "quirks"
  | .seed => "seed"
  | .key => "key"

def Switch.name : Switch → String
  | .verbose => "verbose"
  | .disassemble => "disassemble"

def UsageError.message : UsageError → String
  | unknownOption text => "unknown option " ++ text
  | missingValue s => "a value is missing for --" ++ s.name
  | unexpectedValue s => "there is no value for --" ++ s.name
  | invalidValue s value => "invalid value for --" ++ s.name ++ ": " ++ value
  | repeatedSetting s => "--" ++ s.name ++ " is given twice"
  | repeatedSwitch s => "--" ++ s.name ++ " is given twice"
  | missingInput => "the program to execute is missing"
  | repeatedInput path => "one program at a time: " ++ path

def longOption (name : String) : Option (Setting ⊕ Switch) :=
  (([.frames, .cyclesPerFrame, .dialect, .seed, .key].find? (·.name == name)).map Sum.inl).or
    (([.verbose, .disassemble].find? (·.name == name)).map Sum.inr)

def shortOption : Char → Option (Setting ⊕ Switch)
  | 'f' => some (.inl .frames)
  | 'c' => some (.inl .cyclesPerFrame)
  | 'q' => some (.inl .dialect)
  | 's' => some (.inl .seed)
  | 'k' => some (.inl .key)
  | 'v' => some (.inr .verbose)
  | 'd' => some (.inr .disassemble)
  | _ => none

structure Reading where
  arguments : List Argument
  pending : Option Setting := none

/-- The value in the same word as its option. Equals signs in front of it, however many, only set it
apart, and behind them there has to be something. -/
def attached (s : Setting) (rest : List Char) : Except UsageError Reading :=
  match rest.dropWhile (· == '=') with
  | [] => .error (.missingValue s)
  | value => .ok { arguments := [.setting s (String.ofList value)] }

/-- The letters of a word behind a single dash. A setting takes the rest of the word as its value,
or the next word if there is no rest. -/
def readLetters : List Char → Except UsageError Reading
  | [] => .ok { arguments := [] }
  | c :: cs =>
      match shortOption c with
      | none => .error (.unknownOption ("-" ++ c.toString))
      | some (.inr s) =>
          (readLetters cs).map fun r => { r with arguments := .switch s :: r.arguments }
      | some (.inl s) =>
          match cs with
          | [] => .ok { arguments := [], pending := some s }
          | rest => attached s rest

def readLong (word : List Char) : Except UsageError Reading :=
  let name := String.ofList (word.takeWhile (· != '='))
  match longOption name, word.dropWhile (· != '=') with
  | none, _ => .error (.unknownOption ("--" ++ name))
  | some (.inl s), [] => .ok { arguments := [], pending := some s }
  | some (.inl s), rest => attached s rest
  | some (.inr s), [] => .ok { arguments := [.switch s] }
  | some (.inr s), _ :: _ => .error (.unexpectedValue s)

def readWord (word : String) : Except UsageError Reading :=
  match word.toList with
  | '-' :: '-' :: rest => readLong rest
  | '-' :: c :: cs => readLetters (c :: cs)
  | _ => .ok { arguments := [.input word] }

/-- The whole command line. After a bare `--` there are no more options. -/
def readWords : Option Setting → List String → Except UsageError (List Argument)
  | none, [] => .ok []
  | some s, [] => .error (.missingValue s)
  | some s, value :: words => do
      if value.startsWith "-" then throw (.missingValue s)
      return .setting s value :: (← readWords none words)
  | none, word :: words => do
      if word = "--" then return words.map .input
      let r ← readWord word
      return r.arguments ++ (← readWords r.pending words)

end Chip8.CommandLine
