import Chip8.Proofs.Runs

namespace Chip8

theorem Memory.load_program (m : Memory) (p : Array UInt8) : m.load p 0x200 =
    if p.size ≤ 0xE00 then .ok (m.overwrite p 0x200) else .error (.tooLarge p.size 0xE00) := by
  by_cases h : p.size ≤ 0xE00
  · simp [load, h, Nat.not_lt_of_le h]
  · simp [load, h, Nat.lt_of_not_le h]

theorem Config.source_source (config : Config) (host : Random.Source) :
    config.source (config.source host) = config.source host := by
  cases h : config.seed with
  | none => simp only [source, h]
  | some seed => simp only [source, h]

namespace Operation

def program? : Operation → Option (Array UInt8)
  | .load p => some p
  | _ => none

def lastLoad (ops : List Operation) : Option (Array UInt8) := (ops.filterMap program?).getLast?

theorem lastLoad_append_load (ops : List Operation) (p : Array UInt8) :
    lastLoad (ops ++ [.load p]) = some p := by
  simp [lastLoad, program?]

theorem lastLoad_append_others (before : List Operation) {after : List Operation}
    (h : ∀ op ∈ after, op.program? = none) : lastLoad (before ++ after) = lastLoad before := by
  have hafter : after.filterMap program? = [] := List.filterMap_eq_nil_iff.2 h
  simp [lastLoad, hafter]

theorem lastLoad_append_other (ops : List Operation) {op : Operation} (h : op.program? = none) :
    lastLoad (ops ++ [op]) = lastLoad ops :=
  lastLoad_append_others ops (List.forall_mem_singleton.2 h)

end Operation

open Operation

namespace Machine

variable {m : Machine} {config : Config} {seed : UInt64} {ops : List Operation}

/-- Memory as a program finds it. -/
def image (program : Option (Array UInt8)) : Memory :=
  program.elim .initial fun p => Memory.initial.overwrite p 0x200

/-- A machine as at power-on, but for a program that is in it. -/
def fresh (config : Config) (host : Random.Source) (program : Option (Array UInt8)) : Machine :=
  { memory := image program, random := config.source host, config, program }

theorem powerOn_eq (config : Config) (host : Random.Source) :
    powerOn config host = fresh config host none := rfl

theorem reload_eq (hm : ∀ p ∈ m.program, p.size ≤ 0xE00) :
    m.reload = ⟨(), { m with memory := image m.program }, []⟩ := by
  cases hp : m.program with
  | none => simp only [reload, image, hp, Option.elim_none]
  | some p =>
      simp only [reload, image, hp, Memory.load_program, hm p hp, if_true, Option.elim_some]

theorem reset_eq (hm : ∀ p ∈ m.program, p.size ≤ 0xE00) :
    m.reset = ⟨(), fresh m.config m.random m.program, [.machineReset]⟩ := by
  simp only [reset, Core.restart, reload_eq hm, fresh, List.nil_append]

theorem load_eq (m : Machine) (p : Array UInt8) : m.load p =
    if p.size ≤ 0xE00 then
      ⟨.ok (), fresh m.config m.random (some p), [.machineReset, .loaded p.size]⟩
    else ⟨.error (.tooLarge p.size 0xE00), fresh m.config m.random none, [.machineReset]⟩ := by
  have hreset := reset_eq (m := { m with program := none }) (by rintro _ ⟨⟩)
  by_cases h : p.size ≤ 0xE00
  · simp only [load, hreset, Memory.load_program, h, if_true]
    simp only [fresh, image, Option.elim_none, Option.elim_some, List.singleton_append]
  · simp only [load, hreset, Memory.load_program, h, if_false]

theorem performAll_load (config : Config) (host : Random.Source) {p : Array UInt8}
    (h : p.size ≤ 0xE00) :
    (powerOn config host).performAll [.load p] = fresh config host (some p) := by
  have hload := perform_load_next (powerOn config host) p
  rw [load_eq, if_pos h] at hload
  refine hload.trans ?_
  simp only [powerOn, fresh, Config.source_source]

theorem performAll_load_cons (config : Config) (host : Random.Source) {p : Array UInt8}
    (h : p.size ≤ 0xE00) (ops : List Operation) :
    (powerOn config host).performAll (.load p :: ops) =
      (fresh config host (some p)).performAll ops :=
  congrArg (performAll · ops) (performAll_load config host h)

/-- What a machine keeps of its history to be reloaded. -/
def kept (ops : List Operation) : Option (Array UInt8) :=
  (lastLoad ops).filter fun p => p.size ≤ 0xE00

theorem kept_eq {p : Array UInt8} (h : lastLoad ops = some p) :
    kept ops = if p.size ≤ 0xE00 then some p else none := by
  simp only [kept, h, Option.filter, decide_eq_true_eq]

theorem size_le_of_kept {p : Array UInt8} (hp : p ∈ kept ops) : p.size ≤ 0xE00 := by
  simp only [kept, Option.mem_def, Option.filter_eq_some_iff, decide_eq_true_eq] at hp
  exact hp.2

theorem performAll_program (config : Config) (host : Random.Source) (ops : List Operation) :
    ((powerOn config host).performAll ops).program = kept ops := by
  refine performAll_induction (P := fun ops n => n.program = kept ops) rfl ?_ ops
  intro ops n op hn
  cases op with
  | load p =>
      rw [perform_load_next, load_eq, kept_eq (lastLoad_append_load ops p)]
      by_cases h : p.size ≤ 0xE00
      · simp only [h, if_true]
        rfl
      · simp only [h, if_false]
        rfl
  | reset =>
      rw [perform_reset_next, reset_eq (fun p hp => size_le_of_kept (hn ▸ hp)), kept,
        lastLoad_append_other ops rfl]
      exact hn
  | step =>
      rw [perform_step_next, kept, lastLoad_append_other ops rfl]
      obtain h | h := n.step_next
      · rw [h]
        exact hn
      · rw [h]
        exact hn
  | tick =>
      rw [kept, lastLoad_append_other ops rfl]
      exact hn
  | setKey key pressed =>
      obtain ⟨keypad, h⟩ := n.perform_setKey_next key pressed
      rw [h, kept, lastLoad_append_other ops rfl]
      exact hn

theorem fresh_seeded (hseed : config.seed = some seed) (r host : Random.Source)
    (program : Option (Array UInt8)) : fresh config r program = fresh config host program := by
  simp only [fresh, Config.source, hseed]

theorem load_seeded (hm : m.config = config) (hseed : config.seed = some seed)
    (host : Random.Source) (p : Array UInt8) : m.load p = if p.size ≤ 0xE00 then
      ⟨.ok (), fresh config host (some p), [.machineReset, .loaded p.size]⟩
    else ⟨.error (.tooLarge p.size 0xE00), powerOn config host, [.machineReset]⟩ := by
  rw [load_eq, hm, fresh_seeded hseed m.random host, fresh_seeded hseed m.random host, powerOn_eq]

theorem reset_fresh (config : Config) (host : Random.Source) {program : Option (Array UInt8)}
    (h : ∀ p ∈ program, p.size ≤ 0xE00) :
    (fresh config host program).reset.next = fresh config host program := by
  rw [reset_eq h]
  simp only [fresh, Config.source_source]

theorem performAll_reset (hseed : config.seed = some seed) (host : Random.Source)
    (ops : List Operation) :
    ((powerOn config host).performAll ops).reset.next = fresh config host (kept ops) := by
  have hprogram := performAll_program config host ops
  rw [reset_eq (fun _ hp => size_le_of_kept (hprogram ▸ hp)), hprogram, performAll_config]
  exact fresh_seeded hseed _ host _

/-- With a seed, a reset and a load leave nothing of what came before them but the program that a
reset starts over with: the last one that was put in, if it fitted. -/
theorem performAll_erased (dialect : Dialect) (seed : UInt64) (host host' : Random.Source)
    (ops : List Operation) :
    let config : Config := { dialect, seed := some seed }
    let m := (powerOn config host).performAll ops
    let new := powerOn config host'
    (m.reset.next = match lastLoad ops with
      | some p => if p.size ≤ 0xE00 then (new.load p).next else new
      | none => new) ∧
    m.reset.log = [.machineReset] ∧ m.reset.next.reset.next = m.reset.next ∧
    ∀ q, m.load q = new.load q ∧
      if q.size ≤ 0xE00 then (m.load q).answer = .ok ()
      else (m.load q).answer = .error (.tooLarge q.size 0xE00) ∧ (m.load q).next = new := by
  intro config m new
  have hconfig : m.config = config := performAll_config _ ops
  have hprogram : m.program = kept ops := performAll_program config host ops
  have hfits : ∀ p ∈ kept ops, p.size ≤ 0xE00 := fun _ => size_le_of_kept
  have hreset : m.reset = ⟨(), fresh config host' (kept ops), [.machineReset]⟩ := by
    rw [reset_eq (hprogram ▸ hfits), hconfig, hprogram, fresh_seeded rfl _ host']
  have hconfig' : new.config = config := rfl
  have hnew := load_seeded hconfig' rfl host'
  have hload (q : Array UInt8) : m.load q = new.load q := by
    rw [hnew]
    exact load_seeded hconfig rfl host' q
  refine ⟨?_, by rw [hreset], ?_, fun q => ⟨hload q, ?_⟩⟩
  · rw [hreset]
    cases h : lastLoad ops with
    | none =>
        rw [kept, h]
        rfl
    | some p =>
        rw [kept_eq h]
        by_cases hp : p.size ≤ 0xE00
        · simp only [hp, hnew, if_true]
        · simp only [hp, if_false]
          rfl
  · rw [hreset]
    exact reset_fresh config host' hfits
  · rw [hload, hnew]
    by_cases h : q.size ≤ 0xE00
    · simp only [h, if_true]
    · rw [if_neg h, if_neg h]
      exact ⟨rfl, rfl⟩

end Machine

end Chip8
