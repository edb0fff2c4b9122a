-- SUMMARY: When a run stops and why: the reason kept by a machine that looks for one after each step is the one read off the state.
import TapeDebugger.Proofs.Machine.Sound
import TapeDebugger.Proofs.Machine.Steps
import Mathlib.Logic.Function.Iterate

/-!
# Stopping

`Program.halt?` reads the reason to stop off a state. A machine may as well keep the reason once it
has one: a write that is answered with `full` gives one, and so does the look at the limit and at
the end of the source that follows every step. `Latch` is this machine. Both agree on every state of
a run (`latch_steps`), because only a write can fill the output, and nothing is written once it is
full.
-/

namespace TapeDebugger

/-- A machine that keeps the reason for which it has stopped. -/
structure Latch where
  state : State
  halt : Option Halt

namespace Latch

/-- Unless a reason is kept already, look at the limit and then at the end of the source. -/
def check (p : Program) (m : Latch) : Latch :=
  match m.halt with
  | some _ => m
  | none =>
    if p.settings.instructionLimit ≤ m.state.executed then { m with halt := some .limitReached }
    else if p.source.size ≤ m.state.ip then { m with halt := some .sourceEnded }
    else m

/-- The reason that an instruction gives by itself: a write that was answered with `full`. -/
def answered (instruction : Option Instruction) (after : State) : Option Halt :=
  match instruction, after.spool.receipt with
  | some .output, .full => some .outputFull
  | _, _ => none

def start (p : Program) : Latch := check p ⟨p.start, none⟩

def step (p : Program) (m : Latch) : Latch :=
  match m.halt with
  | some _ => m
  | none =>
    let after := p.execute m.state
    check p ⟨after, answered (p.instructionAt? m.state.ip) after⟩

end Latch

namespace Program

variable {p : Program} {s : State}

/-! ## The reason kept -/

/-- With room left in the output, the look at limit and end finds what the state says. -/
theorem check_of_not_full (h : s.spool.isFull = false) :
    Latch.check p ⟨s, none⟩ = ⟨s, p.halt? s⟩ := by
  simp only [Latch.check, halt?, h]
  split
  · rfl
  · split <;> rfl

theorem isFull_start (p : Program) : p.start.spool.isFull = false := by
  have hpos : 0 < p.start.spool.limit := Nat.lt_of_lt_of_le Nat.one_pos (Nat.le_max_left _ _)
  rw [Spool.isFull, decide_eq_false_iff_not, Nat.not_le]
  exact hpos

theorem latch_step (p : Program) (s : State) :
    Latch.step p ⟨s, p.halt? s⟩ = ⟨p.step s, p.halt? (p.step s)⟩ := by
  cases hs : p.halted s with
  | true =>
    obtain ⟨reason, hreason⟩ := Option.isSome_iff_exists.1 hs
    rw [step_of_halted hs, hreason]
    rfl
  | false =>
    have hnone := halt?_eq_none hs
    have hroom := (halted_eq_false_iff.1 hs).1
    rw [step_of_halted_eq_false hs, hnone]
    simp only [Latch.step]
    by_cases hi : p.instructionAt? s.ip = some .output
    · rw [hi]
      cases hfull : (p.execute s).spool.isFull with
      | true => simp [Latch.answered, Spool.receipt, Latch.check, halt?, hfull]
      | false =>
        have hanswer : Latch.answered (some .output) (p.execute s) = none := by
          simp [Latch.answered, Spool.receipt, hfull]
        rw [hanswer]
        exact check_of_not_full hfull
    · have hanswer : Latch.answered (p.instructionAt? s.ip) (p.execute s) = none := by
        unfold Latch.answered
        split
        · contradiction
        · rfl
      have hspool : (p.execute s).spool = s.spool := spool_perform_of_ne_output hi
      rw [hanswer]
      exact check_of_not_full (by rw [hspool]; exact hroom)

/-- After any number of steps the reason kept is the one read off the state. -/
theorem latch_steps (p : Program) (k : Nat) :
    (Latch.step p)^[k] (Latch.start p) = ⟨p.steps k p.start, p.halt? (p.steps k p.start)⟩ := by
  induction k with
  | zero => exact check_of_not_full p.isFull_start
  | succ k ih => rw [Function.iterate_succ_apply', ih, latch_step, steps_succ]

/-! ## The reason read off a sound state -/

/-- In a sound state a bound is met when it is reached. -/
theorem Sound.halt?_eq (h : p.Sound s) :
    p.halt? s =
      if s.spool.bytes.size = max 1 (p.settings.outputCapacity - 1) then some .outputFull
      else if s.executed = p.settings.instructionLimit then some .limitReached
      else if s.ip = p.source.size then some .sourceEnded
      else none := by
  have hfull : s.spool.isFull = true ↔
      s.spool.bytes.size = max 1 (p.settings.outputCapacity - 1) := by
    have := h.written_le
    rw [h.limit_spool] at this
    rw [Spool.isFull, h.limit_spool, decide_eq_true_iff]
    omega
  have hlimit : p.settings.instructionLimit ≤ s.executed ↔
      s.executed = p.settings.instructionLimit := by
    have := h.executed_le
    omega
  have hend : p.source.size ≤ s.ip ↔ s.ip = p.source.size := by
    have := h.ip_le
    omega
  simp only [halt?, hfull, hlimit, hend]

/-- Why a run has stopped, after any number of steps: the output comes before the limit, and the
limit before the end of the source. The machine that keeps its reason says the same. A stopped state
stays as it is. Running on from here is a loop that ends within the allowance, every step on the way
counts, the count is the number of steps that were effective, and the result is that of the whole
run. -/
theorem stopping_of_steps (p : Program) (k : Nat) :
    (p.halt? (p.steps k p.start) = some .outputFull ↔
      (p.steps k p.start).spool.bytes.size = max 1 (p.settings.outputCapacity - 1)) ∧
    (p.halt? (p.steps k p.start) = some .limitReached ↔
      (p.steps k p.start).spool.bytes.size ≠ max 1 (p.settings.outputCapacity - 1) ∧
      (p.steps k p.start).executed = p.settings.instructionLimit) ∧
    (p.halt? (p.steps k p.start) = some .sourceEnded ↔
      (p.steps k p.start).spool.bytes.size ≠ max 1 (p.settings.outputCapacity - 1) ∧
      (p.steps k p.start).executed ≠ p.settings.instructionLimit ∧
      (p.steps k p.start).ip = p.source.size) ∧
    (p.halt? (p.steps k p.start) = none ↔
      (p.steps k p.start).spool.bytes.size ≠ max 1 (p.settings.outputCapacity - 1) ∧
      (p.steps k p.start).executed ≠ p.settings.instructionLimit ∧
      (p.steps k p.start).ip ≠ p.source.size) ∧
    (Latch.step p)^[k] (Latch.start p) = ⟨p.steps k p.start, p.halt? (p.steps k p.start)⟩ ∧
    (p.halted (p.steps k p.start) = true → p.step (p.steps k p.start) = p.steps k p.start) ∧
    (p.run (p.steps k p.start) =
      if p.halted (p.steps k p.start) then p.steps k p.start else p.run (p.steps (k + 1) p.start)) ∧
    (∃ n, n ≤ p.settings.instructionLimit - (p.steps k p.start).executed ∧
      p.run (p.steps k p.start) = p.steps (k + n) p.start ∧
      p.halted (p.steps (k + n) p.start) = true ∧
      (∀ m, m < n → p.halted (p.steps (k + m) p.start) = false) ∧
      (p.run (p.steps k p.start)).executed = (p.steps k p.start).executed + n) ∧
    (p.steps k p.start).executed =
      (List.range k).countP (fun m => !p.halted (p.steps m p.start)) ∧
    interpret p.settings p.source p.input = .ok (p.finish (p.steps k p.start)) := by
  have hsound := p.sound_steps k
  have hclass := hsound.halt?_eq
  refine ⟨?_, ?_, ?_, ?_, p.latch_steps k, step_of_halted, ?_, ?_, ?_, ?_⟩
  · rw [hclass]; grind
  · rw [hclass]; grind
  · rw [hclass]; grind
  · rw [hclass]; grind
  · rw [steps_succ]
    exact run_eq_ite p _
  · refine ⟨p.lastStep (p.steps k p.start), lastStep_le_allowance p _, ?_, ?_, ?_, ?_⟩
    · rw [steps_add]
      exact run_eq_steps_lastStep p _
    · rw [steps_add]
      exact halted_steps_lastStep p _
    · intro m hm
      rw [steps_add]
      exact halted_steps_eq_false_iff.2 hm
    · rw [run_eq_steps_lastStep]
      exact executed_steps_of_le (Nat.le_refl _)
  · rw [executed_steps]
    exact Nat.zero_add _
  · rw [interpret_self, finish_congr (run_steps p k p.start)]

end Program

end TapeDebugger
