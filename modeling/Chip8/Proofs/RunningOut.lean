import Chip8.Proofs.ControlFlow
import Chip8.Proofs.Fetching
import Chip8.Proofs.Halting
import Chip8.Proofs.Loading

namespace Chip8

namespace Memory

variable {m : Memory} {p : Array UInt8} {offset a b : Nat}

def ZerosFrom (m : Memory) (a : Nat) : Prop := ∀ b, a ≤ b → b ≤ 0xFFF → m.read b = .ok 0

theorem ZerosFrom.mono (h : m.ZerosFrom a) (hab : a ≤ b) : m.ZerosFrom b := by
  intro c hc
  exact h c (Nat.le_trans hab hc)

theorem ZerosFrom.word? (h : m.ZerosFrom a) (ha : a < 0xFFF) : m.word? a = some 0 := by
  have hhigh := h a (Nat.le_refl a) (Nat.le_of_lt ha)
  have hlow := h (a + 1) (Nat.le_succ a) ha
  rw [read_of_lt (by omega), Except.ok.injEq] at hhigh hlow
  rw [Memory.word?, dif_pos (by omega), hhigh, hlow]
  rfl

theorem zerosFrom_overwrite (h : offset + p.size ≤ a) : (m.overwrite p offset).ZerosFrom a := by
  intro b hb hle
  exact read_overwrite_behind (Nat.le_trans h hb) (Nat.lt_succ_of_le hle)

end Memory

namespace Machine

variable {m : Machine} {n : Nat}

theorem stepped_of_halted {f : Fault} (hm : m.isLoaded) (hs : m.state = .halted f) (n : Nat) :
    m.stepped n = m := by
  induction n with
  | zero => rfl
  | succ n ih => rw [stepped_succ, ih, step_of_halted hm hs]

def room (m : Machine) : Nat := (0x1000 - m.pc.toNat) / 2

/-- Where there is no room for another instruction, the program counter going on two by two. -/
def brink (m : Machine) : UInt16 := if m.pc.toNat % 2 = 0 then 0x1000 else 0xFFF

theorem toNat_brink (m : Machine) : 0xFFF ≤ m.brink.toNat := by
  rw [brink]
  split <;> decide

def ahead (m : Machine) (n : Nat) : Machine := { m with pc := UInt16.ofNat (m.pc.toNat + 2 * n) }

theorem add_room_le (hpc : m.pc.toNat ≤ 0x1000) (hn : n ≤ m.room) :
    m.pc.toNat + 2 * n ≤ 0x1000 := by
  rw [room] at hn
  omega

theorem toNat_pc_ahead (hpc : m.pc.toNat ≤ 0x1000) (hn : n ≤ m.room) :
    (m.ahead n).pc.toNat = m.pc.toNat + 2 * n :=
  UInt16.toNat_ofNat_of_lt' (Nat.lt_of_le_of_lt (add_room_le hpc hn) (by decide))

theorem ahead_zero (m : Machine) : m.ahead 0 = m := by
  rw [ahead, Nat.mul_zero, Nat.add_zero, UInt16.ofNat_toNat]

theorem pc_ahead_succ (m : Machine) (n : Nat) : (m.ahead (n + 1)).pc = (m.ahead n).pc + 2 :=
  UInt16.ofNat_add (m.pc.toNat + 2 * n) 2

theorem pc_ahead_room (hpc : m.pc.toNat ≤ 0x1000) : (m.ahead m.room).pc = m.brink := by
  apply UInt16.toNat_inj.1
  rw [toNat_pc_ahead hpc (Nat.le_refl _), room, brink]
  split
  · next heven =>
    show _ = 0x1000
    omega
  · next hodd =>
    show _ = 0xFFF
    omega

/-- A word of zeros is a call of a machine code routine, which is ignored. -/
theorem step_of_zeros (hm : m.isLoaded) (hs : m.state = .running)
    (h : m.memory.ZerosFrom m.pc.toNat) (hpc : m.pc.toNat < 0xFFF) :
    m.step.answer = .ok .advanced ∧ m.step.next = { m with pc := m.pc + 2 } := by
  have hi : m.instructionAt m.pc.toNat = some (.sys 0) :=
    (Core.instructionAt_of_word? (h.word? hpc)).trans rfl
  rw [step_of_effect hm hs hi rfl]
  exact ⟨rfl, rfl⟩

theorem step_ahead (hm : m.isLoaded) (hs : m.state = .running) (hpc : m.pc.toNat ≤ 0x1000)
    (h : m.memory.ZerosFrom m.pc.toNat) (hn : n < m.room) :
    (m.ahead n).step.answer = .ok .advanced ∧ (m.ahead n).step.next = m.ahead (n + 1) := by
  have hat : (m.ahead n).pc.toNat = m.pc.toNat + 2 * n := toNat_pc_ahead hpc (Nat.le_of_lt hn)
  have hzeros : (m.ahead n).memory.ZerosFrom (m.ahead n).pc.toNat :=
    h.mono (hat ▸ Nat.le_add_right _ _)
  have hlt : (m.ahead n).pc.toNat < 0xFFF := by
    have hnext : m.pc.toNat + 2 * (n + 1) ≤ 0x1000 := add_room_le hpc hn
    omega
  obtain ⟨hanswer, hnext⟩ := step_of_zeros (m := m.ahead n) hm hs hzeros hlt
  refine ⟨hanswer, hnext.trans ?_⟩
  rw [← pc_ahead_succ]
  rfl

theorem stepped_eq_ahead (hm : m.isLoaded) (hs : m.state = .running) (hpc : m.pc.toNat ≤ 0x1000)
    (h : m.memory.ZerosFrom m.pc.toNat) (hn : n ≤ m.room) : m.stepped n = m.ahead n := by
  induction n with
  | zero => exact m.ahead_zero.symm
  | succ n ih => rw [stepped_succ, ih (Nat.le_of_lt hn), (step_ahead hm hs hpc h hn).2]

/-- The program goes on to the end of memory with nothing moving but the program counter, fails to
fetch there, and that is the end of it. -/
structure RunsOut (m : Machine) : Prop where
  advances : ∀ n < m.room, (m.stepped n).step.answer = .ok .advanced
  moves : ∀ n ≤ m.room, m.stepped n = { m with pc := (m.stepped n).pc } ∧
    (m.stepped n).pc.toNat = m.pc.toNat + 2 * n
  fails : (m.stepped m.room).step.answer = .error (.fetchOutOfBounds m.brink)
  stays : ∀ n, m.room < n → m.stepped n =
    { m with pc := m.brink, state := .halted (.fetchOutOfBounds m.brink) }

theorem runsOut_of_zeros (hm : m.isLoaded) (hs : m.state = .running) (hpc : m.pc.toNat ≤ 0x1000)
    (h : m.memory.ZerosFrom m.pc.toNat) : m.RunsOut := by
  have hlast : m.stepped m.room = { m with pc := m.brink } := by
    rw [stepped_eq_ahead hm hs hpc h (Nat.le_refl _), ← pc_ahead_room hpc]
    rfl
  obtain ⟨hanswer, hnext⟩ := step_of_fetch (m := { m with pc := m.brink }) hm hs m.toNat_brink
  constructor
  · intro n hn
    rw [stepped_eq_ahead hm hs hpc h (Nat.le_of_lt hn)]
    exact (step_ahead hm hs hpc h hn).1
  · intro n hn
    rw [stepped_eq_ahead hm hs hpc h hn]
    exact ⟨rfl, toNat_pc_ahead hpc hn⟩
  · rw [hlast, hanswer]
  · intro n hn
    obtain ⟨k, rfl⟩ := Nat.exists_eq_add_of_lt hn
    rw [Nat.add_right_comm, stepped_add, stepped_succ, hlast, hnext]
    exact stepped_of_halted (m := { m with pc := m.brink, state := _ }) hm rfl k

/-- Where there are only zeros up to the end of memory, a program does nothing any more until it
fails to fetch: after as many steps as there are words, behind the last byte or at it. So does a
program that has come to the end of its image, as long as it has not written to memory. -/
theorem zeros_run_out :
    (∀ m : Machine, m.isLoaded → m.state = .running → m.pc.toNat ≤ 0x1000 →
      m.memory.ZerosFrom m.pc.toNat → m.RunsOut) ∧
    ∀ (config : Config) (host : Random.Source) (ops : List Operation) (p : Array UInt8),
      let start := powerOn config host
      let m := start.performAll ops
      m.program = some p → (∀ e ∈ start.journal [] ops, ¬ e.2.Writes) → m.state = .running →
        0x200 + p.size ≤ m.pc.toNat → m.pc.toNat ≤ 0x1000 → m.RunsOut := by
  constructor
  · intro m
    exact runsOut_of_zeros
  · intro config host ops p start m hprogram hjournal hs himage hpc
    have hm : m.isLoaded := by rw [isLoaded, hprogram, Option.isSome_some]
    have hmemory : m.memory = image (some p) := by
      rw [← hprogram]
      exact performAll_memory (Core.bounded_fresh _ _) (by rintro _ ⟨⟩) (fun _ => rfl) hjournal
    refine runsOut_of_zeros hm hs hpc ?_
    rw [hmemory]
    exact Memory.zerosFrom_overwrite himage

theorem zeros_run_out_jumped :
    let m := (powerOn {} (.ofSeed 0)).performAll [.load #[0x12, 0x03], .step]
    let idle := fresh {} (.ofSeed 0) (some #[])
    m.RunsOut ∧ m.room = 1790 ∧ m.brink = 0xFFF ∧
      idle.RunsOut ∧ idle.room = 1792 ∧ idle.brink = 0x1000 := by
  intro m idle
  have hi : (holding 0x12 0x03).instructionAt 0x200 = some (.jump 0x203) :=
    (holding_instructionAt _ _).trans (by decide)
  have hnext : (holding 0x12 0x03).step.next = { holding 0x12 0x03 with pc := 0x203 } :=
    step_next_of_effect (m := holding 0x12 0x03) rfl rfl hi rfl
  have hm : m = { holding 0x12 0x03 with pc := 0x203 } :=
    (performAll_load_cons {} (.ofSeed 0) (by decide) [.step]).trans hnext
  have hlogged : (powerOn {} (.ofSeed 0)).journal [] [.load #[0x12, 0x03], .step] =
      [(0x200, .jump 0x203)] :=
    (journal_load {} (.ofSeed 0) (by decide) [.step]).trans
      (journal_step (executes_of_effect (m := holding 0x12 0x03) rfl rfl hi rfl) hnext [] [])
  have hpc : m.pc = 0x203 := congrArg (fun n : Machine => n.pc) hm
  have hin : 0x202 ≤ m.pc.toNat ∧ m.pc.toNat ≤ 0x1000 := by
    rw [hpc]
    decide
  have hjournal : ∀ e ∈ (powerOn {} (.ofSeed 0)).journal [] [.load #[0x12, 0x03], .step],
      ¬ e.2.Writes := by
    rw [hlogged]
    exact List.forall_mem_singleton.2 id
  have hout : m.RunsOut := zeros_run_out.2 {} (.ofSeed 0) _ #[0x12, 0x03]
    (congrArg Machine.program hm) hjournal (congrArg (fun n : Machine => n.state) hm) hin.1 hin.2
  have hidle : idle.RunsOut :=
    zeros_run_out.1 idle rfl rfl (by decide) (Memory.zerosFrom_overwrite (Nat.le_refl _))
  have hroom : m.room = 1790 ∧ m.brink = 0xFFF := by
    rw [room, brink, hpc]
    exact ⟨rfl, rfl⟩
  have hroom' : idle.room = 1792 ∧ idle.brink = 0x1000 := by
    rw [room, brink, show idle.pc = 0x200 from rfl]
    exact ⟨rfl, rfl⟩
  exact ⟨hout, hroom.1, hroom.2, hidle, hroom'.1, hroom'.2⟩

end Machine

end Chip8
