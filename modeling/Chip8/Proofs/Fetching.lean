import Chip8.Listing
import Chip8.Proofs.Reserved

namespace Chip8

theorem getElem?_listing (p : Array UInt8) (origin : UInt16) {n : Nat}
    (h : n < (p.size + 1) / 2) : (listing p origin)[n]? =
      some ⟨origin + UInt16.ofNat (2 * n), .ofBytes (p.getD (2 * n) 0) (p.getD (2 * n + 1) 0)⟩ := by
  simp only [listing, List.getElem?_map, List.getElem?_range h, Option.map_some]

theorem getD_drop (p : Array UInt8) (k n : Nat) : (p.drop k).getD n 0 = p.getD (k + n) 0 := by
  rw [Array.getD_eq_getD_getElem?, Array.getD_eq_getD_getElem?, Array.drop_eq_extract,
    Array.getElem?_extract, Nat.min_self]
  by_cases h : n < p.size - k
  · rw [if_pos h]
  · rw [if_neg h, Array.getElem?_eq_none (by omega)]

/-- Every place of a program begins a line, if the listing begins at a place of its parity. -/
theorem getElem?_listing_drop (p : Array UInt8) {k : Nat} (h : k < p.size) :
    (listing (p.drop (k % 2)) (0x200 + UInt16.ofNat (k % 2)))[k / 2]? =
      some ⟨UInt16.ofNat (0x200 + k), .ofBytes (p.getD k 0) (p.getD (k + 1) 0)⟩ := by
  have hk : k % 2 + 2 * (k / 2) = k := Nat.mod_add_div k 2
  have haddress : 0x200 + UInt16.ofNat (k % 2) + UInt16.ofNat (2 * (k / 2)) =
      UInt16.ofNat (0x200 + k) := by
    rw [UInt16.add_assoc, ← UInt16.ofNat_add, hk, UInt16.ofNat_add]
    rfl
  have hsize : k / 2 < ((p.drop (k % 2)).size + 1) / 2 := by
    rw [Array.drop_eq_extract, Array.size_extract]
    omega
  rw [getElem?_listing _ _ hsize, getD_drop, getD_drop, ← Nat.add_assoc, hk, haddress]

open Operation

namespace Core

variable {d : Dialect} {s t : Core} {i : Instruction} {w : Opcode}

theorem step_of_decode (hs : s.state = .running) (hw : s.fetch = .ok w)
    (hi : Instruction.decode w = some i) : s.step d = (s.run d i).halt.told := by
  simp only [step, attempt, hs, cycle, hw, hi]

theorem step_eq_illegal_iff (hs : s.state = .running) (hw : s.fetch = .ok w) :
    (s.step d).answer = .error (.illegalOpcode w) ↔ Instruction.decode w = none := by
  rw [(running_step d hs).answer_eq_error_iff hs]
  constructor
  · intro h
    cases h with
    | undecoded _ _ hd => exact hd
    | refused i _ _ h => cases h
  · intro hd
    rw [fetch_eq] at hw
    cases hword : s.memory.word? s.pc.toNat with
    | none =>
        rw [hword] at hw
        cases hw
    | some v =>
        rw [hword] at hw
        cases hw
        exact .undecoded w hword hd

end Core

namespace Machine

variable {m : Machine} {op : Operation} {ops : List Operation}
  {done : List (UInt16 × Instruction)}

def Reloadable (m : Machine) : Prop := ∀ p ∈ m.program, p.size ≤ 0xE00

theorem perform_restart (hm : m.Reloadable) (hop : op.restarts) :
    ∃ program, (∀ p ∈ program, p.size ≤ 0xE00) ∧
      (m.perform op).next = fresh m.config m.random program := by
  cases op with
  | load p =>
      rw [perform_load_next, load_eq]
      by_cases h : p.size ≤ 0xE00
      · refine ⟨some p, ?_, by rw [if_pos h]⟩
        rintro _ ⟨⟩
        exact h
      · refine ⟨none, ?_, by rw [if_neg h]⟩
        rintro _ ⟨⟩
  | reset => exact ⟨m.program, hm, by rw [perform_reset_next, reset_eq hm]⟩
  | step | tick | setKey => cases hop

theorem perform_reloadable (hm : m.Reloadable) :
    (m.perform op).next.Reloadable := by
  by_cases hop : op.restarts
  · obtain ⟨program, hfits, hnext⟩ := perform_restart hm hop
    rw [hnext]
    exact hfits
  · rw [Reloadable, perform_program hop]
    exact hm

theorem perform_memory (hb : m.Bounded) (hop : ¬ op.restarts)
    (h : ∀ e ∈ m.executedBy op, ¬ e.2.Writes) : (m.perform op).next.memory = m.memory := by
  rcases perform_cases hb hop with ⟨i, t, hi, ht, hnext⟩ | ⟨-, _, _, _, _, _, hnext⟩
  · rw [hnext]
    rcases Core.memoryAfter_eq_ok (Core.effect_memory ht) with hmemory | ⟨hwrites, -⟩
    · exact hmemory
    · rw [hi] at h
      exact absurd hwrites (h (m.pc, i) List.mem_cons_self)
  · rw [hnext]

theorem performAll_memory (hb : m.Bounded) (hm : m.Reloadable)
    (h : (∀ e ∈ done, ¬ e.2.Writes) → m.memory = image m.program) :
    (∀ e ∈ m.journal done ops, ¬ e.2.Writes) →
      (m.performAll ops).memory = image (m.performAll ops).program := by
  induction ops generalizing m done with
  | nil => exact h
  | cons op ops ih =>
      refine ih (perform_bounded hb op) (perform_reloadable hm) ?_
      intro hdone
      by_cases hop : op.restarts
      · obtain ⟨program, -, hnext⟩ := perform_restart hm hop
        rw [hnext]
        rfl
      · rw [if_neg hop, List.forall_mem_append] at hdone
        rw [perform_memory hb hop hdone.2, perform_program hop]
        exact h hdone.1

theorem fetch_of_image {p : Array UInt8} {k : Nat} (hm : m.memory = image (some p))
    (hpc : m.pc.toNat = 0x200 + k) (hk : 0x200 + k ≤ 0xFFE) :
    m.fetch = .ok (.ofBytes (p.getD k 0) (p.getD (k + 1) 0)) := by
  have hlt : 0x200 + k + 1 < 0x1000 := by omega
  have hword := Memory.word?_overwrite Memory.initial p hlt
  rw [Core.fetch_eq, hm, hpc]
  simp only [image, Option.elim_some, hword]

/-- As long as a program has not written to memory, what it meets at an address is what its listing
has there, be the address even or odd: data stops it, and an instruction is run. -/
theorem fetches_listed (config : Config) (host : Random.Source) (before after : List Operation)
    (p : Array UInt8) (k : Nat) :
    let start := powerOn config host
    let ops := before ++ .load p :: after
    let m := start.performAll ops
    ((start.performAll before).load p).answer = .ok () →
    (∀ op ∈ after, op.program? = none) →
    (∀ e ∈ start.journal [] ops, ¬ e.2.Writes) →
    m.state = .running → m.pc.toNat = 0x200 + k → k < p.size → m.pc.toNat ≤ 0xFFE →
    ∃ line, (listing (p.drop (k % 2)) (0x200 + UInt16.ofNat (k % 2)))[k / 2]? = some line ∧
      line.address = m.pc ∧ m.fetch = .ok line.opcode ∧
      (m.step.answer = .error (.illegalOpcode line.opcode) ↔ line.instruction = none) ∧
      ∀ i, line.instruction = some i →
        let t := (m.run m.config.dialect i).halt.told
        m.step = ⟨t.answer, { m with toCore := t.next }, t.log⟩ := by
  intro start ops m hload hafter hjournal hs hpc hk hle
  have hsize : p.size ≤ 0xE00 := by
    apply Nat.le_of_not_lt
    intro hlarge
    rw [load_eq, if_neg (Nat.not_le_of_lt hlarge)] at hload
    cases hload
  have hprogram : m.program = some p := by
    have hlast : lastLoad ops = some p := by
      have h := lastLoad_append_others (before ++ [.load p]) hafter
      rwa [lastLoad_append_load, ← List.append_cons] at h
    rw [performAll_program, kept_eq hlast, if_pos hsize]
  have hmemory : m.memory = image (some p) := by
    rw [← hprogram]
    exact performAll_memory (Core.bounded_fresh _ _) (by rintro _ ⟨⟩) (fun _ => rfl) hjournal
  have hfetch := fetch_of_image hmemory hpc (hpc ▸ hle)
  have hloaded : m.isLoaded := by rw [isLoaded, hprogram, Option.isSome_some]
  refine ⟨_, getElem?_listing_drop p hk, ?_, hfetch, ?_, ?_⟩
  · rw [← hpc, UInt16.ofNat_toNat]
  · rw [step_of_isLoaded hloaded]
    exact Core.step_eq_illegal_iff hs hfetch
  · intro i hi
    rw [step_of_isLoaded hloaded, Core.step_of_decode hs hfetch hi]

def halfWord : Array UInt8 :=
  -- Jumps to its last byte, which stands at an odd address and is half a word.
  #[0x12, 0x03, 0xFF, 0x6A]

def jumping : Machine := fresh {} (.ofSeed 0) (some halfWord)

def jumped : Machine := { jumping with pc := 0x203 }

theorem fetches_listed_jumped :
    let t := (jumped.run jumped.config.dialect (.setByte 0xA 0)).halt.told
    (listing (halfWord.drop 1) 0x201)[1]? = some ⟨0x203, 0x6A00⟩ ∧ jumped.fetch = .ok 0x6A00 ∧
      jumped.step.answer ≠ .error (.illegalOpcode 0x6A00) ∧
      jumped.step = ⟨t.answer, { jumped with toCore := t.next }, t.log⟩ := by
  have hi : jumping.instructionAt 0x200 = some (.jump 0x203) :=
    (instructionAt_fresh {} (.ofSeed 0) halfWord (k := 0) (by decide)).trans (by decide)
  have hnext : jumping.step.next = jumped :=
    step_next_of_effect (m := jumping) rfl rfl hi rfl
  have hjournal : (powerOn {} (.ofSeed 0)).journal [] [.load halfWord, .step] =
      [(0x200, .jump 0x203)] :=
    (journal_load {} (.ofSeed 0) (by decide) [.step]).trans
      (journal_step (executes_of_effect (m := jumping) rfl rfl hi rfl) hnext [] [])
  have hrun : (powerOn {} (.ofSeed 0)).performAll [.load halfWord, .step] = jumped :=
    (performAll_load_cons {} (.ofSeed 0) (by decide) [.step]).trans hnext
  have hload : ((powerOn {} (.ofSeed 0)).load halfWord).answer = .ok () := by
    rw [load_eq]
    rfl
  have h := fetches_listed {} (.ofSeed 0) [] [.step] halfWord 3
  dsimp only [List.nil_append] at h
  rw [hrun, hjournal] at h
  obtain ⟨line, hline, -, hfetch, hillegal, hstep⟩ := h hload (by decide)
    (List.forall_mem_singleton.2 id) rfl rfl (by decide) (by decide)
  have hlisted : (listing (halfWord.drop 1) 0x201)[1]? = some ⟨0x203, 0x6A00⟩ := by decide
  cases hlisted.symm.trans hline
  refine ⟨hlisted, hfetch, ?_, hstep (.setByte 0xA 0) (by decide)⟩
  intro herror
  exact absurd (hillegal.1 herror) (by decide)

end Machine

end Chip8
