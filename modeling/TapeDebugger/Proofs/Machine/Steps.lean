-- SUMMARY: Runs as counted steps: once stopped always stopped, how many steps a run takes, and what they count.
import TapeDebugger.Machine.Run
import Mathlib.Data.Nat.Find

/-!
# Steps of a run

A run is a sequence of states that ends in the first stopped one and stays there. `lastStep` is the
number of steps up to that state, whatever the state one starts from; running means making so many
steps (`run_eq_steps_lastStep`), and starting to run later makes no difference (`run_steps`).
-/

namespace TapeDebugger.Program

variable {p : Program} {s : State}

theorem steps_succ (p : Program) (n : Nat) (s : State) :
    p.steps (n + 1) s = p.step (p.steps n s) :=
  steps_add p n 1 s

theorem step_of_halted_eq_false (h : p.halted s = false) : p.step s = p.execute s :=
  step_of_not_halted (by simp [h])

theorem halt?_eq_none (h : p.halted s = false) : p.halt? s = none :=
  Option.not_isSome_iff_eq_none.1 (by simpa [halted] using h)

/-- The end of the source is the reason to stop only within the limits. -/
theorem halt?_eq_sourceEnded_iff : p.halt? s = some .sourceEnded ↔
    s.spool.isFull = false ∧ s.executed < p.settings.instructionLimit ∧ p.source.size ≤ s.ip := by
  grind [halt?]

/-- A full output is the reason to stop whatever else there is. -/
theorem halt?_eq_outputFull_iff : p.halt? s = some .outputFull ↔ s.spool.isFull = true := by
  grind [halt?]

theorem halt?_eq_limitReached_iff : p.halt? s = some .limitReached ↔
    s.spool.isFull = false ∧ p.settings.instructionLimit ≤ s.executed := by
  grind [halt?]

/-! ## Instructions at positions -/

theorem instructionAt?_of_getElem? {i : Nat} {byte : UInt8} (h : p.source[i]? = some byte) :
    p.instructionAt? i = Instruction.ofByte? p.settings.zeroClears byte := by
  rw [instructionAt?, Array.getD_eq_getD_getElem?, h]
  rfl

/-- Only the opening bracket is read as the start of a loop. -/
theorem eq_opening_of_ofByte? {zeroClears : Bool} {byte : UInt8}
    (h : Instruction.ofByte? zeroClears byte = some .loopOpen) : byte = Bracket.opening := by
  unfold Instruction.ofByte? at h
  split at h
  case h_7 => rfl
  case h_9 => cases zeroClears <;> simp at h
  all_goals cases h

/-- Only the closing bracket is read as the end of a loop. -/
theorem eq_closing_of_ofByte? {zeroClears : Bool} {byte : UInt8}
    (h : Instruction.ofByte? zeroClears byte = some .loopClose) : byte = Bracket.closing := by
  unfold Instruction.ofByte? at h
  split at h
  case h_8 => rfl
  case h_9 => cases zeroClears <;> simp at h
  all_goals cases h

theorem instructionAt?_opening (h : p.source[i]? = some Bracket.opening) :
    p.instructionAt? i = some .loopOpen := by
  rw [instructionAt?_of_getElem? h]
  rfl

theorem instructionAt?_closing (h : p.source[i]? = some Bracket.closing) :
    p.instructionAt? i = some .loopClose := by
  rw [instructionAt?_of_getElem? h]
  rfl

/-! ## Stopped states stay -/

/-- From the first stopped state on, all states of a run are the same. -/
theorem steps_eq_of_halted {m n : Nat} (hmn : m ≤ n) (h : p.halted (p.steps m s) = true) :
    p.steps n s = p.steps m s := by
  obtain ⟨d, rfl⟩ := Nat.exists_eq_add_of_le hmn
  rw [steps_add, steps_of_halted h]

theorem halted_steps_mono {m n : Nat} (hmn : m ≤ n) (h : p.halted (p.steps m s) = true) :
    p.halted (p.steps n s) = true := by
  rw [steps_eq_of_halted hmn h]
  exact h

theorem not_halted_steps_mono {m n : Nat} (hmn : m ≤ n) (h : p.halted (p.steps n s) = false) :
    p.halted (p.steps m s) = false := by
  cases hm : p.halted (p.steps m s) with
  | false => rfl
  | true => rw [halted_steps_mono hmn hm] at h; contradiction

/-- The allowance always suffices to stop. -/
theorem halted_steps_allowance (p : Program) (s : State) :
    p.halted (p.steps (p.allowance s) s) = true := by
  rw [← run_eq_steps]
  exact p.halted_run s

theorem exists_halted_steps (p : Program) (s : State) : ∃ n, p.halted (p.steps n s) = true :=
  ⟨_, p.halted_steps_allowance s⟩

/-! ## The last step -/

/-- The number of steps after which a run from `s` has stopped. -/
def lastStep (p : Program) (s : State) : Nat := Nat.find (p.exists_halted_steps s)

theorem halted_steps_lastStep (p : Program) (s : State) :
    p.halted (p.steps (p.lastStep s) s) = true :=
  Nat.find_spec (p.exists_halted_steps s)

theorem lastStep_le_allowance (p : Program) (s : State) : p.lastStep s ≤ p.allowance s :=
  Nat.find_min' _ (p.halted_steps_allowance s)

/-- A state of a run is stopped from the last step on and not before. -/
theorem halted_steps_iff {n : Nat} : p.halted (p.steps n s) = true ↔ p.lastStep s ≤ n :=
  ⟨fun h => Nat.find_min' (p.exists_halted_steps s) h,
    fun hn => halted_steps_mono hn (p.halted_steps_lastStep s)⟩

theorem halted_steps_eq_false_iff {n : Nat} :
    p.halted (p.steps n s) = false ↔ n < p.lastStep s := by
  rw [← Bool.not_eq_true, halted_steps_iff, Nat.not_le]

/-- From a later state of a run so many fewer steps are left. -/
theorem lastStep_steps {n : Nat} (hn : n ≤ p.lastStep s) :
    p.lastStep (p.steps n s) = p.lastStep s - n := by
  apply Nat.le_antisymm
  · rw [← halted_steps_iff, ← steps_add, Nat.add_sub_of_le hn]
    exact p.halted_steps_lastStep s
  · rw [Nat.sub_le_iff_le_add, Nat.add_comm, ← halted_steps_iff, steps_add]
    exact p.halted_steps_lastStep _

theorem run_eq_steps_lastStep (p : Program) (s : State) : p.run s = p.steps (p.lastStep s) s := by
  rw [run_eq_steps]
  exact steps_eq_of_halted (p.lastStep_le_allowance s) (p.halted_steps_lastStep s)

/-- Any number of steps that ends in a stopped state ends where the run does. -/
theorem run_eq_of_halted {n : Nat} (h : p.halted (p.steps n s) = true) : p.run s = p.steps n s := by
  rw [run_eq_steps_lastStep]
  exact (steps_eq_of_halted (halted_steps_iff.1 h) (p.halted_steps_lastStep s)).symm

/-- A run may be begun by hand. -/
theorem run_steps (p : Program) (n : Nat) (s : State) : p.run (p.steps n s) = p.run s := by
  have hstop := p.halted_run (p.steps n s)
  rw [run_eq_steps_lastStep p (p.steps n s), ← steps_add] at hstop ⊢
  exact (run_eq_of_halted hstop).symm

/-- Running is a loop: done when stopped, and otherwise one step and running on. -/
theorem run_eq_ite (p : Program) (s : State) :
    p.run s = if p.halted s then s else p.run (p.step s) := by
  cases hs : p.halted s with
  | true =>
    rw [if_pos rfl]
    exact run_eq_of_halted (n := 0) hs
  | false =>
    rw [if_neg (by decide)]
    exact (run_steps p 1 s).symm

theorem finish_congr {t : State} (h : p.run s = p.run t) : p.finish s = p.finish t := by
  simp only [finish, h]

/-- The reason in a result is the one read off the last state of the run. -/
theorem halt_finish_iff {reason : Halt} :
    (p.finish s).halt = reason ↔ p.halt? (p.run s) = some reason := by
  rw [Option.eq_some_iff_get_eq]
  exact ⟨fun h => ⟨p.halted_run s, h⟩, fun ⟨_, h⟩ => h⟩

theorem finish_eq {reason : Halt} (h : p.halt? (p.run s) = some reason) :
    p.finish s = ⟨(p.run s).spool.bytes, reason, (p.run s).executed⟩ := by
  rw [← halt_finish_iff.2 h]
  rfl

/-! ## Counting -/

/-- The count of executed bytes is the number of steps made on states that had not stopped. -/
theorem executed_steps (p : Program) (n : Nat) (s : State) :
    (p.steps n s).executed =
      s.executed + (List.range n).countP fun m => !p.halted (p.steps m s) := by
  induction n with
  | zero => rfl
  | succ n ih =>
    rw [steps_succ, List.range_succ, List.countP_append, ← Nat.add_assoc, ← ih]
    cases hs : p.halted (p.steps n s) with
    | true => rw [step_of_halted hs]; simp [hs]
    | false => rw [step_of_halted_eq_false hs, executed_execute]; simp [hs]

/-- Up to the last step every step counts. -/
theorem executed_steps_of_le {n : Nat} (hn : n ≤ p.lastStep s) :
    (p.steps n s).executed = s.executed + n := by
  have hall : (List.range n).countP (fun m => !p.halted (p.steps m s)) = (List.range n).length := by
    rw [List.countP_eq_length]
    intro m hm
    have hlt : m < p.lastStep s := Nat.lt_of_lt_of_le (List.mem_range.1 hm) hn
    simp [halted_steps_eq_false_iff.2 hlt]
  rw [executed_steps, hall, List.length_range]

theorem executed_run_start (p : Program) : (p.run p.start).executed = p.lastStep p.start := by
  rw [run_eq_steps_lastStep, executed_steps_of_le (Nat.le_refl _)]
  exact Nat.zero_add _

/-- How often an instruction, or a comment, is executed in so many steps. -/
def executions (p : Program) (i : Option Instruction) (n : Nat) (s : State) : Nat :=
  (List.range n).countP fun m =>
    !p.halted (p.steps m s) && decide (p.instructionAt? (p.steps m s).ip = i)

theorem executions_succ (p : Program) (i : Option Instruction) (n : Nat) (s : State) :
    p.executions i (n + 1) s = p.executions i n s +
      if p.halted (p.steps n s) = false ∧ p.instructionAt? (p.steps n s).ip = i then 1 else 0 := by
  rw [executions, List.range_succ, List.countP_append, List.countP_singleton, ← executions]
  simp

/-! ## Output -/

/-- Only a write touches the output. -/
theorem spool_perform_of_ne_output {i : Option Instruction} (hi : i ≠ some .output) :
    (p.perform s i).spool = s.spool := by
  cases i with
  | none => rfl
  | some i =>
    cases i with
    | output => exact absurd rfl hi
    | _ => rfl

theorem prefix_push (s : Spool) (byte : UInt8) : s.bytes.toList <+: (s.push byte).bytes.toList := by
  cases hs : s.isFull with
  | true => exact ⟨[], by rw [Spool.push_of_isFull hs, List.append_nil]⟩
  | false =>
    rw [Spool.bytes_push_of_not_isFull (by simp [hs]), Array.toList_push]
    exact List.prefix_append _ _

/-- A step leaves what has been written as it is. -/
theorem prefix_step (p : Program) (s : State) :
    s.spool.bytes.toList <+: (p.step s).spool.bytes.toList := by
  cases hs : p.halted s with
  | true => exact ⟨[], by rw [step_of_halted hs, List.append_nil]⟩
  | false =>
    rw [step_of_halted_eq_false hs]
    by_cases hi : p.instructionAt? s.ip = some .output
    · simp only [execute, hi, perform]
      exact prefix_push _ _
    · have hspool : (p.execute s).spool = s.spool := spool_perform_of_ne_output hi
      exact ⟨[], by rw [hspool, List.append_nil]⟩

theorem prefix_steps {m n : Nat} (hmn : m ≤ n) :
    (p.steps m s).spool.bytes.toList <+: (p.steps n s).spool.bytes.toList := by
  induction hmn with
  | refl => exact List.prefix_refl _
  | step _ ih =>
    rw [steps_succ]
    exact ih.trans (p.prefix_step _)

/-- The output of an earlier state is cut out of that of a later one by its length. -/
theorem take_bytes_steps {m n : Nat} (hmn : m ≤ n) :
    (p.steps n s).spool.bytes.take (p.steps m s).spool.bytes.size = (p.steps m s).spool.bytes := by
  apply Array.toList_inj.1
  rw [Array.take_eq_extract, Array.toList_extract, List.extract_eq_take_drop, List.drop_zero,
    Nat.sub_zero, ← Array.length_toList]
  exact (List.prefix_iff_eq_take.1 (prefix_steps hmn)).symm

end TapeDebugger.Program
