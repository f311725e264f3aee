import Chip8.CommandLine.Options
import Chip8.Listing
import Chip8.Machine.Playback

namespace Chip8.CommandLine

inductive Failure
  | load (error : LoadError)
  | key (error : InvalidKey)
  | fault (fault : Fault)
  deriving DecidableEq, Repr

def Failure.report : Failure → String
  | load e => e.report
  | key e => e.report
  | fault f => f.report

structure Report where
  output : String
  failure : Option Failure := none
  log : Array Record := #[]

def Report.exitCode (r : Report) : UInt32 := if r.failure.isSome then 1 else 0

def Options.listener (o : Options) : Level :=
  match o.verbosity with
  | 0 => .error
  | 1 => .info
  | 2 => .debug
  | _ => .trace

def listingText (program : Array UInt8) : String :=
  String.join ((listing program 0x200).map fun line => line.text ++ "\n")

def statusLine (m : Machine) : String :=
  "status: " ++ m.state.word ++ ", pc: " ++ Text.prefixedHex 3 m.pc.toNat ++ ", sound: "
    ++ (if m.timers.isSounding then "on" else "off") ++ "\n"

def holdKeys (m : Machine) : List UInt8 → Except InvalidKey Machine
  | [] => .ok m
  | key :: keys =>
      match m.setKey key true with
      | .ok next => holdKeys next keys
      | .error e => .error e

/-- The picture at the end of a run, and how the machine stands. A machine that has halted makes the
run a failure. -/
def runLoaded (o : Options) (m : Machine) (log : Array Record) : Report :=
  let p := m.play o.listener o.frames o.cyclesPerFrame
  { output := p.machine.screen.text ++ statusLine p.machine
    failure := p.machine.haltReason.map .fault
    log := log ++ p.log }

def run (o : Options) (program : Array UInt8) (host : Random.Source) : Report :=
  if o.disassemble then { output := listingText program }
  else
    let start := Machine.powerOn { dialect := o.dialect, seed := o.seed } host
    let t := start.load program
    let log := (o.listener.heard t.log).toArray
    match t.answer with
    | .error e => { output := "", failure := some (.load e), log }
    | .ok () =>
        match holdKeys t.next o.keys with
        | .error e => { output := "", failure := some (.key e), log }
        | .ok m => runLoaded o m log

end Chip8.CommandLine
