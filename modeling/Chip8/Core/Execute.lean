import Chip8.Core.Action

namespace Chip8

open Chip8.Action

def Condition.test : Condition → Action Bool
  | .holds x n => do return (← register x) == n
  | .lacks x n => do return (← register x) != n
  | .equal x y => do return (← register x) == (← register y)
  | .differ x y => do return (← register x) != (← register y)
  | .keyDown x => do return (← get).keypad.isPressed (← register x)
  | .keyUp x => do return !(← get).keypad.isPressed (← register x)

namespace Arithmetic

def value (d : Dialect) (x y : UInt8) : Arithmetic → UInt8
  | copy => y
  | or => x ||| y
  | and => x &&& y
  | xor => x ^^^ y
  | add => x + y
  | sub => x - y
  | shiftRight => d.shiftOperand x y / 2
  | subFrom => y - x
  | shiftLeft => d.shiftOperand x y * 2

/-- What becomes of `VF`, if anything: the carry, the absence of a borrow, or the bit that a shift
pushes out. -/
def flag (d : Dialect) (x y : UInt8) : Arithmetic → Option Bool
  | copy => none
  | or | and | xor => if d.logicClearsFlag then some false else none
  | add => some (0x100 ≤ x.toNat + y.toNat)
  | sub => some (y ≤ x)
  | shiftRight => some (d.shiftOperand x y % 2 == 1)
  | subFrom => some (x ≤ y)
  | shiftLeft => some (0x80 ≤ d.shiftOperand x y)

/-- Leaves the result in the first register. The flag is written last and wins where it is the
first operand too. -/
def apply (op : Arithmetic) (d : Dialect) (x y : UInt8) : Action Unit := do
  let a ← register x
  let b ← register y
  setRegister x (op.value d a b)
  match op.flag d a b with
  | some set => setFlag set
  | none => pure ()

end Arithmetic

def decimalDigits (n : UInt8) : List UInt8 := [n / 100, n / 10 % 10, n % 10]

namespace Action

def skipIf (condition : Bool) : Action Unit := if condition then advance else pure ()

def moveIndex (d : Dialect) (x : UInt8) : Action Unit := do
  if d.transferMovesIndex then setIndex ((← get).index + UInt16.ofNat (Registers.countTo x))

/-- Adds to the index, which wraps at sixteen bits before it is judged. -/
def addIndex (d : Dialect) (x : UInt8) : Action Unit := do
  let sum := (← get).index + (← register x).toUInt16
  setIndex sum
  if d.indexSetsFlag then setFlag (0x1000 ≤ sum)

def jumpOffset (d : Dialect) (address : UInt16) : Action Unit := do
  let offset ← register (d.offsetRegister address)
  let target := address.toNat + offset.toNat
  if target < 0x1000 then jumpTo (UInt16.ofNat target) else raise (.outOfBounds target)

def draw (x y height : UInt8) : Action Unit := do
  let column ← register x
  let row ← register y
  let sprite ← readPointed height.toNat
  let collided ← drawSprite column.toNat row.toNat sprite
  setFlag collided

def execute (d : Dialect) : Instruction → Action Unit
  | .sys _ => pure ()
  | .clearScreen => modify fun s => { s with screen := .blank }
  | .ret => do
      let target ← pop
      jumpTo target
  | .jump a => jumpTo a
  | .call a => do
      push a
      jumpTo a
  | .skip c => do
      let condition ← c.test
      skipIf condition
  | .setByte x n => setRegister x n
  | .addByte x n => do
      let byte ← register x
      setRegister x (byte + n)
  | .combine op x y => op.apply d x y
  | .setIndex a => setIndex a
  | .jumpOffset a => jumpOffset d a
  | .random x mask => do
      let byte ← randomByte
      setRegister x (byte &&& mask)
  | .draw x y height => draw x y height
  | .readDelay x => do
      let s ← get
      setRegister x s.timers.delay
  | .awaitKey x => setState (.awaitingKey x)
  | .setDelay x => do
      let byte ← register x
      modify fun s => { s with timers := { s.timers with delay := byte } }
  | .setSound x => do
      let byte ← register x
      modify fun s => { s with timers := { s.timers with sound := byte } }
  | .addIndex x => addIndex d x
  | .pointGlyph x => do
      let digit ← register x
      setIndex (glyphAddress digit)
  | .storeDecimal x => do
      let byte ← register x
      writePointed (decimalDigits byte)
  | .store x => do
      let bytes ← registersTo x
      writePointed bytes
      moveIndex d x
  | .load x => do
      let bytes ← readPointed (Registers.countTo x)
      setRegistersTo x bytes
      moveIndex d x

end Action

end Chip8
