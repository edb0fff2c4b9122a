-- SUMMARY: A run under smaller limits goes through the same states as one under larger limits, and stops earlier.
import TapeDebugger.Proofs.Machine.Stopping
import Mathlib.Order.Bounds.Basic

/-!
# Truncated runs

The limits of a run only decide when it stops. `Program.Curtails` relates a program with smaller
limits to one with larger limits. A state holds no more of the limits than the capacity of its
output, so the two runs go through the same states but for this capacity as long as the shorter one
lasts (`Curtails.steps_start`). All else follows from where the shorter one stops.
-/

namespace TapeDebugger

/-- The same state with another capacity of the output. -/
def State.withCapacity (s : State) (capacity : Nat) : State :=
  { s with spool := { s.spool with capacity } }

namespace Program

/-- One program has smaller limits than another and is the same in all else. -/
structure Curtails (p q : Program) : Prop where
  source_eq : p.source = q.source
  input_eq : p.input = q.input
  settings_eq : p.settings =
    { q.settings with
      instructionLimit := p.settings.instructionLimit
      outputCapacity := p.settings.outputCapacity }
  limit_le : p.settings.instructionLimit ≤ q.settings.instructionLimit
  capacity_le : p.settings.outputCapacity ≤ q.settings.outputCapacity

namespace Curtails

variable {p q : Program} {s : State} {k : Nat}

/-! ## What limits do not change -/

theorem tapeSize_eq (h : p.Curtails q) : p.settings.tapeSize = q.settings.tapeSize := by
  rw [h.settings_eq]

theorem pairing_eq (h : p.Curtails q) : p.pairing = q.pairing := by
  have hp := p.paired
  rw [h.settings_eq, h.source_eq] at hp
  exact Except.ok.inj (hp.symm.trans q.paired)

theorem landing_eq (h : p.Curtails q) (partner : Option Nat) :
    p.landing partner = q.landing partner := by
  simp only [landing, h.source_eq]

theorem instructionAt?_eq (h : p.Curtails q) (i : Nat) : p.instructionAt? i = q.instructionAt? i := by
  rw [instructionAt?, instructionAt?, h.source_eq, h.settings_eq]

theorem nextInput_eq (h : p.Curtails q) (s : State) (capacity : Nat) :
    p.nextInput s = q.nextInput (s.withCapacity capacity) := by
  rw [nextInput, nextInput, h.input_eq]
  rfl

theorem written_eq (h : p.Curtails q) (value : UInt8) : p.written value = q.written value := by
  rw [written, written, h.settings_eq]

/-! ## The same states -/

/-- With room in the output an instruction does the same whatever the limits are. -/
theorem perform_eq (h : p.Curtails q) {capacity : Nat} (hroom : s.spool.isFull = false)
    (hroom' : (s.withCapacity capacity).spool.isFull = false) (i : Option Instruction) :
    q.perform (s.withCapacity capacity) i = (p.perform s i).withCapacity capacity := by
  cases i with
  | none => rfl
  | some i =>
    cases i with
    | input =>
      simp only [perform, ← h.nextInput_eq s, ← h.input_eq]
      rfl
    | output =>
      simp only [perform, Spool.push, hroom, hroom', ← h.written_eq]
      rfl
    | loopOpen =>
      simp only [perform, ← h.landing_eq, ← h.pairing_eq]
      rfl
    | loopClose =>
      simp only [perform, ← h.landing_eq, ← h.pairing_eq]
      rfl
    | _ => rfl

/-- Output that does not fill the smaller capacity does not fill the larger one. -/
theorem isFull_eq_false (h : p.Curtails q) (hsound : p.Sound s) (hroom : s.spool.isFull = false) :
    (s.withCapacity q.settings.outputCapacity).spool.isFull = false := by
  have hcapacity := h.capacity_le
  rw [Spool.isFull, decide_eq_false_iff_not, Spool.limit, hsound.capacity_eq] at hroom
  rw [Spool.isFull, decide_eq_false_iff_not, Spool.limit]
  simp only [State.withCapacity]
  omega

/-- What is not stopped by the smaller limits is not stopped by the larger ones. -/
theorem halted_eq_false (h : p.Curtails q) (hsound : p.Sound s) (hs : p.halted s = false) :
    q.halted (s.withCapacity q.settings.outputCapacity) = false := by
  obtain ⟨hroom, hlimit, hip⟩ := halted_eq_false_iff.1 hs
  rw [h.source_eq] at hip
  exact halted_eq_false_iff.2
    ⟨h.isFull_eq_false hsound hroom, Nat.lt_of_lt_of_le hlimit h.limit_le, hip⟩

theorem execute_eq (h : p.Curtails q) (hsound : p.Sound s) (hs : p.halted s = false) :
    q.execute (s.withCapacity q.settings.outputCapacity) =
      (p.execute s).withCapacity q.settings.outputCapacity := by
  have hroom := (halted_eq_false_iff.1 hs).1
  have hroom' := (halted_eq_false_iff.1 (h.halted_eq_false hsound hs)).1
  rw [execute, execute, h.perform_eq hroom hroom']
  rw [show (s.withCapacity q.settings.outputCapacity).ip = s.ip from rfl, ← h.instructionAt?_eq]
  rfl

theorem start_eq (h : p.Curtails q) :
    q.start = p.start.withCapacity q.settings.outputCapacity := by
  rw [start, start, h.tapeSize_eq]
  rfl

/-- As long as the run with the smaller limits lasts, the other one is in the same state. -/
theorem steps_start (h : p.Curtails q) (hk : k ≤ p.lastStep p.start) :
    q.steps k q.start = (p.steps k p.start).withCapacity q.settings.outputCapacity := by
  induction k with
  | zero => exact h.start_eq
  | succ k ih =>
    have hgoes : p.halted (p.steps k p.start) = false := halted_steps_eq_false_iff.2 hk
    have hsound := p.sound_steps k
    have hgoes' := h.halted_eq_false hsound hgoes
    rw [← ih (Nat.le_of_lt hk)] at hgoes'
    rw [steps_succ, steps_succ, step_of_halted_eq_false hgoes, step_of_halted_eq_false hgoes',
      ih (Nat.le_of_lt hk), h.execute_eq hsound hgoes]

/-- The longer run stops no earlier. -/
theorem lastStep_le (h : p.Curtails q) : p.lastStep p.start ≤ q.lastStep q.start := by
  by_contra hlt
  have hgoes := halted_steps_eq_false_iff.2 (Nat.lt_of_not_le hlt)
  have hgoes' := h.halted_eq_false (p.sound_steps _) hgoes
  rw [← h.steps_start (Nat.le_of_not_le hlt), q.halted_steps_lastStep] at hgoes'
  contradiction

/-- Where the shorter run stops, the longer one has written the same. -/
theorem bytes_run (h : p.Curtails q) :
    (p.run p.start).spool.bytes = (q.steps (p.lastStep p.start) q.start).spool.bytes := by
  rw [h.steps_start (Nat.le_refl _), run_eq_steps_lastStep]
  rfl

theorem prefix_run (h : p.Curtails q) :
    (p.run p.start).spool.bytes.toList <+: (q.run q.start).spool.bytes.toList := by
  rw [h.bytes_run, run_eq_steps_lastStep q]
  exact prefix_steps h.lastStep_le

end Curtails

/-! ## Where a run stops -/

variable {p q : Program}

/-- After so many steps a bound is met: the output is full, the limit is reached, or the source has
ended. -/
def MeetsBound (p : Program) (k : Nat) (s : State) : Prop :=
  s.spool.bytes.size = max 1 (p.settings.outputCapacity - 1) ∨
    k = p.settings.instructionLimit ∨ s.ip = p.source.size

theorem Sound.halted_iff {s : State} (h : p.Sound s) :
    p.halted s = true ↔ p.MeetsBound s.executed s := by
  rw [halted, h.halt?_eq, MeetsBound]
  grind

theorem halted_steps_iff_meetsBound {k : Nat} (hk : k ≤ p.lastStep p.start) :
    p.halted (p.steps k p.start) = true ↔ p.MeetsBound k (p.steps k p.start) := by
  have hexecuted : (p.steps k p.start).executed = k := by
    rw [executed_steps_of_le hk]
    exact Nat.zero_add k
  have hiff := (p.sound_steps k).halted_iff
  rwa [hexecuted] at hiff

/-- A run stops as soon as it meets a bound, and it may be looked for among any states that are the
same as those of the run up to there. -/
theorem isLeast_meetsBound {states : Nat → State}
    (hsame : ∀ k ≤ p.lastStep p.start,
      p.MeetsBound k (states k) ↔ p.MeetsBound k (p.steps k p.start)) :
    IsLeast {k | p.MeetsBound k (states k)} (p.lastStep p.start) := by
  constructor
  · have hmeets := (halted_steps_iff_meetsBound (Nat.le_refl _)).1 (p.halted_steps_lastStep p.start)
    exact (hsame _ (Nat.le_refl _)).2 hmeets
  · intro k hk
    by_contra hlt
    have hle := Nat.le_of_not_le hlt
    have hmeets := (hsame k hle).1 hk
    exact hlt (halted_steps_iff.1 ((halted_steps_iff_meetsBound hle).2 hmeets))

/-! ## Shorter and longer runs -/

namespace Curtails

/-- The longer run is in the same state where the shorter one stops. When that is at the end of the
source, or at a limit that both have, the longer run stops there too. -/
theorem run_eq (h : p.Curtails q)
    (hstop : p.settings.instructionLimit = q.settings.instructionLimit ∧
        p.lastStep p.start = p.settings.instructionLimit ∨
      (p.run p.start).ip = p.source.size) :
    q.run q.start = (p.run p.start).withCapacity q.settings.outputCapacity := by
  have hsteps := h.steps_start (Nat.le_refl _)
  rw [← run_eq_steps_lastStep] at hsteps
  rw [← hsteps]
  apply run_eq_of_halted
  rw [← Bool.not_eq_false, hsteps, halted_eq_false_iff]
  rintro ⟨-, hlimit, hip⟩
  rcases hstop with ⟨hequal, hlast⟩ | hend
  · have hexecuted : (p.run p.start).executed < q.settings.instructionLimit := hlimit
    rw [p.executed_run_start, hlast, hequal] at hexecuted
    exact Nat.lt_irrefl _ hexecuted
  · have hinside : (p.run p.start).ip < q.source.size := hip
    rw [hend, h.source_eq] at hinside
    exact Nat.lt_irrefl _ hinside

/-- With one limit for both, the shorter output is as much of the longer one as fits. -/
theorem bytes_run_eq_take (h : p.Curtails q)
    (hequal : p.settings.instructionLimit = q.settings.instructionLimit) :
    (p.run p.start).spool.bytes =
      (q.run q.start).spool.bytes.take (max 1 (p.settings.outputCapacity - 1)) := by
  have hmeets : p.MeetsBound _ _ :=
    (halted_steps_iff_meetsBound (Nat.le_refl _)).1 (p.halted_steps_lastStep p.start)
  rw [← run_eq_steps_lastStep] at hmeets
  rcases hmeets with hfull | hstop
  · rw [h.bytes_run] at hfull ⊢
    rw [← hfull, run_eq_steps_lastStep q]
    exact (take_bytes_steps h.lastStep_le).symm
  · have hsame : (q.run q.start).spool.bytes = (p.run p.start).spool.bytes := by
      rw [h.run_eq (hstop.imp_left fun hlast => ⟨hequal, hlast⟩)]
      rfl
    have hsize := p.sound_run.written_le
    rw [p.sound_run.limit_spool] at hsize
    rw [hsame, Array.take_eq_extract, Array.extract_eq_self_of_le hsize]

/-- A run that ends with the source leaves the same result under larger limits. -/
theorem finish_eq (h : p.Curtails q) (hend : (p.finish p.start).halt = .sourceEnded) :
    p.finish p.start = q.finish q.start := by
  have hhalt := halt_finish_iff.1 hend
  obtain ⟨hroom, hlimit, hip⟩ := halt?_eq_sourceEnded_iff.1 hhalt
  have hrun := h.run_eq (.inr (Nat.le_antisymm p.sound_run.ip_le hip))
  have hhalt' : q.halt? (q.run q.start) = some .sourceEnded := by
    rw [hrun, halt?_eq_sourceEnded_iff]
    rw [h.source_eq] at hip
    exact ⟨h.isFull_eq_false p.sound_run hroom, Nat.lt_of_lt_of_le hlimit h.limit_le, hip⟩
  rw [Program.finish_eq hhalt, Program.finish_eq hhalt', hrun]
  rfl

end Curtails

/-- Running under smaller limits is a part of running under larger ones. The shorter run makes no more
steps, is in the same states up to where it stops, and writes a prefix of the longer output; with one
limit of instructions for both, the prefix is as much as fits. It stops with the first of its states
that meets a bound, and that may be read off the states of the longer run. If it ends with the source,
both results are the same. -/
theorem truncation_of_curtails (h : p.Curtails q) :
    let count := (p.run p.start).executed
    let output := (p.run p.start).spool.bytes
    let room := max 1 (p.settings.outputCapacity - 1)
    count ≤ (q.run q.start).executed ∧
    (∀ k ≤ count,
      (p.steps k p.start).ip = (q.steps k q.start).ip ∧
      (p.steps k p.start).tape.cells = (q.steps k q.start).tape.cells ∧
      (p.steps k p.start).tape.head = (q.steps k q.start).tape.head ∧
      (p.steps k p.start).cursor = (q.steps k q.start).cursor ∧
      (p.steps k p.start).spool.bytes = (q.steps k q.start).spool.bytes ∧
      (p.steps k p.start).executed = (q.steps k q.start).executed) ∧
    output.toList <+: (q.run q.start).spool.bytes.toList ∧
    (p.settings.instructionLimit = q.settings.instructionLimit →
      output = (q.run q.start).spool.bytes.take room) ∧
    IsLeast {k | (p.steps k p.start).spool.bytes.size = room ∨
      k = p.settings.instructionLimit ∨ (p.steps k p.start).ip = p.source.size} count ∧
    IsLeast {k | (q.steps k q.start).spool.bytes.size = room ∨
      k = p.settings.instructionLimit ∨ (q.steps k q.start).ip = p.source.size} count ∧
    ((p.finish p.start).halt = .sourceEnded →
      interpret p.settings p.source p.input = interpret q.settings q.source q.input) := by
  intro count output room
  have hcount : count = p.lastStep p.start := p.executed_run_start
  rw [hcount, q.executed_run_start]
  refine ⟨h.lastStep_le, fun k hk => ?_, h.prefix_run, h.bytes_run_eq_take,
    isLeast_meetsBound fun _ _ => Iff.rfl, isLeast_meetsBound fun k hk => ?_, fun hend => ?_⟩
  · rw [h.steps_start hk]
    exact ⟨rfl, rfl, rfl, rfl, rfl, rfl⟩
  · rw [h.steps_start hk]
    exact Iff.rfl
  · rw [interpret_self, interpret_self, h.finish_eq hend]

/-- An output of capacity three takes two bytes of `+.+.+.`, so the run stops one step short of its
limit. With room for one more byte, and a higher limit, it goes on to the third write. -/
theorem truncation_of_smaller_output :
    ∃ p q,
      Program.load { tapeSize := 1, instructionLimit := 5, outputCapacity := 3 }
        #[0x2b, 0x2e, 0x2b, 0x2e, 0x2b, 0x2e] #[] = .ok p ∧
      Program.load { tapeSize := 1, instructionLimit := 9, outputCapacity := 4 }
        #[0x2b, 0x2e, 0x2b, 0x2e, 0x2b, 0x2e] #[] = .ok q ∧
      p.Curtails q ∧
      (p.run p.start).executed = 4 ∧
      (q.run q.start).executed = 6 ∧
      (p.run p.start).spool.bytes.toList <+: (q.run q.start).spool.bytes.toList := by
  have h : Curtails
    ⟨{ tapeSize := 1, instructionLimit := 5, outputCapacity := 3 },
      #[0x2b, 0x2e, 0x2b, 0x2e, 0x2b, 0x2e], #[],
      ⟨#[], Array.replicate 6 none, Array.replicate 6 none⟩, rfl, rfl, rfl⟩
    ⟨{ tapeSize := 1, instructionLimit := 9, outputCapacity := 4 },
      #[0x2b, 0x2e, 0x2b, 0x2e, 0x2b, 0x2e], #[],
      ⟨#[], Array.replicate 6 none, Array.replicate 6 none⟩, rfl, rfl, rfl⟩ :=
    ⟨rfl, rfl, rfl, by decide, by decide⟩
  exact ⟨_, _, rfl, rfl, h, by decide +kernel, by decide +kernel, (truncation_of_curtails h).2.2.1⟩

end Program

end TapeDebugger
