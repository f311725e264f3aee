import Chip8.Core.Step

namespace Chip8

structure Config where
  dialect : Dialect := .cosmacVip
  seed : Option UInt64 := none
  deriving DecidableEq, Repr

/-- Where random bytes come from after power-on or a reset: a seed begins its bytes anew, and the
host's bytes go on. -/
def Config.source (c : Config) (host : Random.Source) : Random.Source :=
  match c.seed with
  | some seed => .ofSeed seed
  | none => host

structure Machine extends Core where
  config : Config
  program : Option (Array UInt8) := none
  deriving DecidableEq

namespace Machine

def powerOn (config : Config) (host : Random.Source) : Machine :=
  { random := config.source host, config }

def isLoaded (m : Machine) : Bool := m.program.isSome

def haltReason (m : Machine) : Option Fault :=
  match m.state with
  | .halted f => some f
  | _ => none

/-- Memory wiped, with the program copied in again. A program that did not fit would be lost. -/
def reload (m : Machine) : Transition Unit Machine :=
  match m.program with
  | none => ⟨(), { m with memory := .initial }, []⟩
  | some p =>
      match Memory.initial.load p 0x200 with
      | .ok memory => ⟨(), { m with memory }, []⟩
      | .error e => ⟨(), { m with memory := .initial, program := none }, [.reloadFailed e]⟩

/-- Starts over with the program from its beginning, each device as at power-on. -/
def reset (m : Machine) : Transition Unit Machine :=
  let r := m.reload
  let devices := { r.next.toCore with screen := .blank, timers := {}, keypad := .released }
  ⟨(), { r.next with toCore := devices.restart (m.config.source m.random) },
    r.log ++ [.machineReset]⟩

/-- Reset, and put in a program in place of the last one. A program that does not fit leaves the
machine without any. -/
def load (m : Machine) (p : Array UInt8) : Transition (Except LoadError Unit) Machine :=
  let r := { m with program := none }.reset
  match r.next.memory.load p 0x200 with
  | .ok memory =>
      ⟨.ok (), { r.next with memory, program := some p }, r.log ++ [.loaded p.size]⟩
  | .error e => ⟨.error e, r.next, r.log⟩

/-- One step of the program. A machine without one answers a fault and does not halt. -/
def step (m : Machine) : Transition (Except Fault Progress) Machine :=
  match m.program with
  | none => ⟨.error .noProgram, m, []⟩
  | some _ =>
      let t := m.toCore.step m.config.dialect
      ⟨t.answer, { m with toCore := t.next }, t.log⟩

def tick (m : Machine) : Machine := { m with timers := m.timers.tick }

def setKey (m : Machine) (key : UInt8) (pressed : Bool) : Except InvalidKey Machine :=
  (m.keypad.set key pressed).map fun keypad => { m with keypad }

end Machine

end Chip8
