import Chip8.Machine.Basic

namespace Chip8

inductive Operation
  | load (program : Array UInt8)
  | reset
  | step
  | tick
  | setKey (key : UInt8) (pressed : Bool)
  deriving DecidableEq, Repr

inductive Answer
  | done
  | notLoaded (error : LoadError)
  | invalidKey (error : InvalidKey)
  | stepped (result : Except Fault Progress)

namespace Machine

def perform (m : Machine) : Operation → Transition Answer Machine
  | .load p =>
      let t := m.load p
      match t.answer with
      | .ok () => ⟨.done, t.next, t.log⟩
      | .error e => ⟨.notLoaded e, t.next, t.log⟩
  | .reset =>
      let t := m.reset
      ⟨.done, t.next, t.log⟩
  | .step =>
      let t := m.step
      ⟨.stepped t.answer, t.next, t.log⟩
  | .tick => ⟨.done, m.tick, []⟩
  | .setKey key pressed =>
      match m.setKey key pressed with
      | .ok next => ⟨.done, next, []⟩
      | .error e => ⟨.invalidKey e, m, []⟩

def performAll (m : Machine) (ops : List Operation) : Machine :=
  ops.foldl (fun m op => (m.perform op).next) m

end Machine

end Chip8
