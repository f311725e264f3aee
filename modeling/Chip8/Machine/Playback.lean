import Chip8.Machine.Basic

namespace Chip8

structure Playback where
  machine : Machine
  advanced : Nat := 0
  fault : Option Fault := none
  log : Array Record := #[]

namespace Playback

def step (listener : Level) (p : Playback) : Playback :=
  let t := p.machine.step
  let log := p.log ++ listener.heard t.log
  match t.answer with
  | .ok .advanced => { p with machine := t.next, advanced := p.advanced + 1, log }
  | .ok .awaitingKey => { p with machine := t.next, log }
  | .error f => { p with machine := t.next, fault := some f, log }

def steps (listener : Level) : Nat → Playback → Playback
  | 0, p => p
  | n + 1, p =>
      let q := p.step listener
      if q.fault.isSome then q else steps listener n q

/-- So many frames, each of so many steps and then a tick. A fault ends the run at once, before the
tick of its frame. -/
def frames (listener : Level) (cycles : Nat) : Nat → Playback → Playback
  | 0, p => p
  | n + 1, p =>
      let q := p.steps listener cycles
      if q.fault.isSome then q
      else frames listener cycles n { q with machine := q.machine.tick }

end Playback

def Machine.play (m : Machine) (listener : Level) (frames cycles : Nat) : Playback :=
  Playback.frames listener cycles frames { machine := m }

end Chip8
