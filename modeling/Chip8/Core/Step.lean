import Chip8.Core.Execute
import Chip8.Instruction.Codec

namespace Chip8

inductive Progress
  | advanced
  | awaitingKey
  deriving DecidableEq, Repr

namespace Instruction

def progress : Instruction → Progress
  | .awaitKey _ => .awaitingKey
  | _ => .advanced

def notes : Instruction → List Record
  | .sys a => [.ignoredSys a]
  | .awaitKey x => [.waitingForKey x]
  | _ => []

end Instruction

abbrev Attempt := Transition (Except Stop Progress) Core

namespace Attempt

def ofAction (a : Action Unit) (s : Core) (progress : Progress) (notes : List Record) : Attempt :=
  match a.run s with
  | .ok _ t => ⟨.ok progress, t, notes⟩
  | .error e t => ⟨.error e, t, []⟩

def after (r : Record) (t : Attempt) : Attempt := { t with log := r :: t.log }

def halt (t : Attempt) : Attempt :=
  match t.answer with
  | .error (.fault f) =>
      { t with next := { t.next with state := .halted f }, log := t.log ++ [.halted t.next.pc f] }
  | _ => t

/-- What a host is told. No program brings about an overrun, so that it is told of none. -/
def told (t : Attempt) : Transition (Except Fault Progress) Core :=
  match t.answer with
  | .ok p => ⟨.ok p, t.next, t.log⟩
  | .error (.fault f) => ⟨.error f, t.next, t.log⟩
  | .error (.overrun _) => ⟨.ok .advanced, t.next, t.log⟩

end Attempt

namespace Core

open Chip8.Action Attempt

def attemptInstruction (d : Dialect) (s : Core) (i : Instruction) : Attempt :=
  ofAction (execute d i) s i.progress i.notes

/-- An instruction by itself, whatever the state of the run. A fault is answered and does not
halt. -/
def perform (d : Dialect) (s : Core) (i : Instruction) : Transition (Except Fault Progress) Core :=
  (s.attemptInstruction d i).told

/-- Runs an instruction that was fetched. The program counter is moved behind it first: skips and
return addresses are counted from there, and so is the place of a fault. -/
def run (d : Dialect) (s : Core) (i : Instruction) : Attempt :=
  (ofAction (do advance; execute d i) s i.progress i.notes).after (.executing s.pc i)

def cycle (d : Dialect) (s : Core) : Attempt :=
  match s.fetch with
  | .error f => ⟨.error (.fault f), s, []⟩
  | .ok w =>
      match Instruction.decode w with
      | none => ⟨.error (.fault (.illegalOpcode w)), s, []⟩
      | some i => s.run d i

def pollKey (s : Core) (x : UInt8) : Attempt :=
  match s.keypad.lowest with
  | none => ⟨.ok .awaitingKey, s, []⟩
  | some key =>
      (ofAction (do setRegister x key; setState .running) s .advanced []).after (.keyStored key x)

/-- One step. A fault halts the core, and a halted core answers the same fault from then on. -/
def attempt (d : Dialect) (s : Core) : Attempt :=
  match s.state with
  | .running => (s.cycle d).halt
  | .awaitingKey x => s.pollKey x
  | .halted f => ⟨.error (.fault f), s, []⟩

def step (d : Dialect) (s : Core) : Transition (Except Fault Progress) Core := (s.attempt d).told

end Core

end Chip8
