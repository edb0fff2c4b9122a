-- SUMMARY: Runs: any number of steps, the run to the end, and what is left of it.
import TapeDebugger.Machine

/-!
# Runs

`Program.run` is the last state of a run. Every step uses up one instruction of the allowance that
the limit leaves, so the allowance bounds the recursion: `halted_run` says that it never ends too
early, and `run_eq_steps` that running is stepping often enough.
-/

namespace TapeDebugger

namespace Program

/-- The state after a number of steps. -/
def steps (p : Program) : Nat → State → State
  | 0, s => s
  | n + 1, s => steps p n (p.step s)

/-- The instructions that the limit still allows. -/
def allowance (p : Program) (s : State) : Nat := p.settings.instructionLimit - s.executed

/-- Step until the state is stopped, at most `n` times. -/
def runWithin (p : Program) : Nat → State → State
  | 0, s => s
  | n + 1, s => if p.halted s then s else runWithin p n (p.execute s)

/-- Step until the state is stopped. -/
def run (p : Program) (s : State) : State := p.runWithin (p.allowance s) s

/-! ## Steps and runs -/

theorem steps_of_halted {p : Program} {s : State} (h : p.halted s) (n : Nat) : p.steps n s = s := by
  induction n with
  | zero => rfl
  | succ n ih => rw [steps, step_of_halted h, ih]

theorem steps_add (p : Program) (m n : Nat) (s : State) :
    p.steps (m + n) s = p.steps n (p.steps m s) := by
  induction m generalizing s with
  | zero => rw [Nat.zero_add, steps]
  | succ m ih => rw [Nat.succ_add, steps, steps, ih]

theorem runWithin_eq_steps (p : Program) (n : Nat) (s : State) : p.runWithin n s = p.steps n s := by
  induction n generalizing s with
  | zero => rfl
  | succ n ih =>
    by_cases h : p.halted s
    · rw [steps_of_halted h, runWithin, if_pos h]
    · rw [runWithin, if_neg h, ih, steps, step_of_not_halted h]

theorem halted_runWithin {p : Program} {n : Nat} {s : State} (h : p.allowance s ≤ n) :
    p.halted (p.runWithin n s) = true := by
  induction n generalizing s with
  | zero =>
    apply halted_of_limit_le
    simp only [allowance] at h
    simp only [runWithin]; omega
  | succ n ih =>
    by_cases hs : p.halted s
    · rw [runWithin, if_pos hs]; exact hs
    · rw [runWithin, if_neg hs]
      apply ih
      simp only [allowance, executed_execute] at h ⊢; omega

/-- A run ends in a stopped state. -/
theorem halted_run (p : Program) (s : State) : p.halted (p.run s) = true :=
  halted_runWithin (Nat.le_refl _)

theorem run_eq_steps (p : Program) (s : State) : p.run s = p.steps (p.allowance s) s :=
  runWithin_eq_steps p _ s

/-! ## Results -/

/-- What a finished run leaves behind. -/
structure Result where
  output : Array UInt8
  halt : Halt
  executed : Nat
  deriving Repr, DecidableEq

/-- Finish the run from a state and keep its result. -/
def finish (p : Program) (s : State) : Result where
  output := (p.run s).spool.bytes
  halt := (p.halt? (p.run s)).get (p.halted_run s)
  executed := (p.run s).executed

end Program

/-- Run a source on an input from the start. -/
def interpret (settings : Settings) (source input : Array UInt8) : Except Fault Program.Result :=
  (Program.load settings source input).map fun p => p.finish p.start

end TapeDebugger
