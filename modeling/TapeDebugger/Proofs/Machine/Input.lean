-- SUMMARY: A run depends on its input only through the bytes that it reads, and reads zeros behind the last one.
import TapeDebugger.Proofs.Machine.Safety
import Mathlib.Order.Monotone.Basic

/-!
# Input

A state holds nothing of the input but how far it has been read. So the same program on another input
goes through the same states but for this place, as long as both inputs have the same bytes where the
run reads them (`steps_withInput`). A run reads one place after another, and from the end of the input
on it reads zero. That the place stays at the end makes no difference to what is read.
-/

namespace TapeDebugger

/-- The same state with another place in the input. -/
def State.withCursor (s : State) (cursor : Nat) : State := { s with cursor }

/-- Two inputs have the same first bytes, with zeros behind the last byte of either. -/
def AgreeUpTo (count : Nat) (input other : Array UInt8) : Prop :=
  ∀ i < count, input.getD i 0 = other.getD i 0

theorem AgreeUpTo.mono {count count' : Nat} {input other : Array UInt8}
    (h : AgreeUpTo count input other) (hle : count' ≤ count) : AgreeUpTo count' input other :=
  fun i hi => h i (Nat.lt_of_lt_of_le hi hle)

theorem getD_min_size (input : Array UInt8) (i : Nat) :
    input.getD (min i input.size) 0 = input.getD i 0 := by
  rcases Nat.le_total i input.size with hle | hge
  · rw [Nat.min_eq_left hle]
  · rw [Nat.min_eq_right hge, Array.getD_eq_getD_getElem?, Array.getD_eq_getD_getElem?,
      Array.getElem?_eq_none (Nat.le_refl _), Array.getElem?_eq_none hge]

/-- Zeros at the end of an input are there without being written. -/
theorem agreeUpTo_append_zeros (count : Nat) (input : Array UInt8) (n : Nat) :
    AgreeUpTo count input (input ++ Array.replicate n 0) := by
  intro i _
  rw [Array.getD_eq_getD_getElem?, Array.getD_eq_getD_getElem?, Array.getElem?_append]
  split
  · rfl
  · rename_i hi
    rw [Array.getElem?_eq_none (Nat.le_of_not_lt hi), Array.getElem?_replicate]
    split <;> rfl

namespace Program

variable {p : Program} {s : State} {input : Array UInt8} {n : Nat}

/-- The same program on another input. -/
def withInput (p : Program) (input : Array UInt8) : Program := { p with input }

/-- The positions in the source that a run executes, one after the other. -/
def trace (p : Program) : List Nat :=
  (List.range (p.run p.start).executed).map fun k => (p.steps k p.start).ip

/-- Two programs give the same result, execute the same positions and leave the same tape. -/
structure RunsAlike (p q : Program) : Prop where
  result_eq : interpret q.settings q.source q.input = interpret p.settings p.source p.input
  trace_eq : q.trace = p.trace
  cells_eq : (q.run q.start).tape.cells = (p.run p.start).tape.cells
  head_eq : (q.run q.start).tape.head = (p.run p.start).tape.head

/-! ## Counting inputs -/

theorem executions_mono (p : Program) (i : Option Instruction) (s : State) :
    Monotone fun n => p.executions i n s :=
  monotone_nat_of_le_succ fun n => by
    rw [executions_succ]
    exact Nat.le_add_right _ _

/-- Nothing is executed once a run has stopped. -/
theorem executions_eq_of_lastStep_le {i : Option Instruction} (hn : p.lastStep s ≤ n) :
    p.executions i n s = p.executions i (p.lastStep s) s := by
  induction n, hn using Nat.le_induction with
  | base => rfl
  | succ n hn ih =>
    rw [executions_succ, if_neg fun hgoes => by simp [halted_steps_iff.2 hn] at hgoes, Nat.add_zero, ih]

theorem executions_le_executions_lastStep (p : Program) (i : Option Instruction) (n : Nat) (s : State) :
    p.executions i n s ≤ p.executions i (p.lastStep s) s := by
  rcases Nat.le_total n (p.lastStep s) with hle | hge
  · exact p.executions_mono i s hle
  · exact Nat.le_of_eq (executions_eq_of_lastStep_le hge)

theorem cursor_steps_start (p : Program) (n : Nat) :
    (p.steps n p.start).cursor = min (p.executions (some .input) n p.start) p.input.size := by
  have hcursor := cursor_steps (p := p) (s := p.start) (Nat.zero_le _) n
  rwa [show p.start.cursor = 0 from rfl, Nat.zero_add] at hcursor

/-! ## The same states -/

/-- A step on another input does the same if it reads the same byte. -/
theorem execute_withInput {cursor : Nat}
    (h : p.instructionAt? s.ip = some .input → input.getD cursor 0 = p.nextInput s) :
    (p.withInput input).execute (s.withCursor cursor) =
      (p.execute s).withCursor
        (if p.instructionAt? s.ip = some .input then min (cursor + 1) input.size else cursor) := by
  have hinstr : (p.withInput input).instructionAt? (s.withCursor cursor).ip =
    p.instructionAt? s.ip := rfl
  rw [execute, execute, hinstr]
  cases hi : p.instructionAt? s.ip with
  | none => rfl
  | some i =>
    cases i with
    | input =>
      have hnext : (p.withInput input).nextInput (s.withCursor cursor) = p.nextInput s := h hi
      rw [if_pos rfl]
      simp only [perform, hnext]
      rfl
    | _ => rfl

/-- As long as the same bytes are read, the states are the same but for the place in the input. -/
theorem steps_withInput (h : AgreeUpTo (p.executions (some .input) n p.start) p.input input) :
    (p.withInput input).steps n (p.withInput input).start =
      (p.steps n p.start).withCursor (min (p.executions (some .input) n p.start) input.size) := by
  induction n with
  | zero =>
    rw [show p.executions (some .input) 0 p.start = 0 from rfl, Nat.zero_min]
    rfl
  | succ n ih =>
    have hstep := ih (h.mono (p.executions_mono (some .input) p.start (Nat.le_succ n)))
    rw [steps_succ, steps_succ, hstep]
    rw [executions_succ] at h ⊢
    cases hs : p.halted (p.steps n p.start) with
    | true =>
      have hs' : (p.withInput input).halted ((p.steps n p.start).withCursor
        (min (p.executions (some .input) n p.start) input.size)) = true := hs
      rw [step_of_halted hs, step_of_halted hs', if_neg (by simp), Nat.add_zero]
    | false =>
      have hs' : (p.withInput input).halted ((p.steps n p.start).withCursor
        (min (p.executions (some .input) n p.start) input.size)) = false := hs
      have hsame : p.instructionAt? (p.steps n p.start).ip = some .input →
          input.getD (min (p.executions (some .input) n p.start) input.size) 0 =
            p.nextInput (p.steps n p.start) := by
        intro hi
        rw [if_pos ⟨hs, hi⟩] at h
        rw [nextInput, cursor_steps_start, getD_min_size, getD_min_size]
        exact (h _ (Nat.lt_succ_self _)).symm
      rw [step_of_halted_eq_false hs, step_of_halted_eq_false hs', execute_withInput hsame]
      by_cases hi : p.instructionAt? (p.steps n p.start).ip = some .input
      · rw [if_pos hi, if_pos ⟨rfl, hi⟩]
        congr 1
        omega
      · rw [if_neg hi, if_neg fun hreads => hi hreads.2, Nat.add_zero]

/-! ## The same runs -/

section

variable (h : AgreeUpTo (p.executions (some .input) (p.run p.start).executed p.start) p.input input)
include h

/-- After the whole run no other byte of the input matters either. -/
theorem steps_withInput_of_run (n : Nat) :
    (p.withInput input).steps n (p.withInput input).start =
      (p.steps n p.start).withCursor (min (p.executions (some .input) n p.start) input.size) := by
  rw [executed_run_start] at h
  exact steps_withInput (h.mono (p.executions_le_executions_lastStep (some .input) n p.start))

theorem run_withInput :
    (p.withInput input).run (p.withInput input).start = (p.run p.start).withCursor
      (min (p.executions (some .input) (p.run p.start).executed p.start) input.size) := by
  have hsteps := steps_withInput_of_run h (p.lastStep p.start)
  rw [← run_eq_steps_lastStep, ← executed_run_start] at hsteps
  rw [← hsteps]
  apply run_eq_of_halted
  rw [hsteps]
  exact p.halted_run p.start

theorem runsAlike_withInput : p.RunsAlike (p.withInput input) := by
  have hrun := run_withInput h
  refine ⟨?_, ?_, congrArg (fun s => s.tape.cells) hrun, congrArg (fun s => s.tape.head) hrun⟩
  · rw [interpret_self, interpret_self]
    have hhalt : (p.withInput input).halt? ((p.withInput input).run (p.withInput input).start) =
        some (p.finish p.start).halt := by
      rw [hrun]
      exact halt_finish_iff.1 rfl
    rw [finish_eq hhalt, hrun]
    rfl
  · rw [trace, trace, hrun]
    refine List.map_congr_left fun k _ => ?_
    rw [steps_withInput_of_run h]
    rfl

end

/-- A run depends on its input only through the bytes that it reads. On any input with the same bytes
there, it gives the same result, executes the same positions and leaves the same tape; each of the two
inputs has been read as far as there are bytes to read. So zeros at the end of the input make no
difference, and bytes that are never read may be any. -/
theorem runsAlike_of_agree (p : Program) :
    let count := p.executions (some .input) (p.run p.start).executed p.start
    (∀ input, AgreeUpTo count p.input input →
      p.RunsAlike (p.withInput input) ∧
      (p.run p.start).cursor = min count p.input.size ∧
      ((p.withInput input).run (p.withInput input).start).cursor = min count input.size) ∧
    (∀ n, p.RunsAlike (p.withInput (p.input ++ Array.replicate n 0))) ∧
    (∀ input, input.size = p.input.size → (∀ i < count, input[i]? = p.input[i]?) →
      p.RunsAlike (p.withInput input) ∧
      (p.withInput input).run (p.withInput input).start = p.run p.start) := by
  intro count
  have hcursor : (p.run p.start).cursor = min count p.input.size := by
    have hsteps := p.cursor_steps_start (p.run p.start).executed
    rwa [executed_run_start, ← run_eq_steps_lastStep, ← executed_run_start] at hsteps
  refine ⟨fun input h => ⟨runsAlike_withInput h, hcursor, congrArg State.cursor (run_withInput h)⟩,
    fun n => runsAlike_withInput (agreeUpTo_append_zeros count p.input n), fun input hsize hbytes => ?_⟩
  have h : AgreeUpTo count p.input input := fun i hi => by
    rw [Array.getD_eq_getD_getElem?, Array.getD_eq_getD_getElem?, hbytes i hi]
  refine ⟨runsAlike_withInput h, ?_⟩
  rw [run_withInput h, hsize, ← hcursor]
  rfl

/-- The program `,.,.` reads twice. On one byte the second read gives zero, as it does where a zero and
one more byte follow. -/
theorem runsAlike_of_agree_of_unread :
    ∃ p, Program.load { tapeSize := 1 } #[0x2c, 0x2e, 0x2c, 0x2e] #[0x41] = .ok p ∧
      p.executions (some .input) (p.run p.start).executed p.start = 2 ∧
      AgreeUpTo 2 #[0x41] #[0x41, 0x00, 0x42] ∧
      p.RunsAlike (p.withInput #[0x41, 0x00, 0x42]) ∧
      (p.run p.start).cursor = 1 ∧
      ((p.withInput #[0x41, 0x00, 0x42]).run (p.withInput #[0x41, 0x00, 0x42]).start).cursor = 2 := by
  let p : Program := ⟨{ tapeSize := 1 }, #[0x2c, 0x2e, 0x2c, 0x2e], #[0x41],
    ⟨#[], #[none, none, none, none], #[none, none, none, none]⟩, rfl, rfl, rfl⟩
  have hreads : p.executions (some .input) (p.run p.start).executed p.start = 2 := by decide +kernel
  have hagree : AgreeUpTo 2 #[0x41] #[0x41, 0x00, 0x42] := by
    unfold AgreeUpTo
    decide
  have hsame := (runsAlike_of_agree p).1 #[0x41, 0x00, 0x42]
  rw [hreads] at hsame
  obtain ⟨halike, hcursor, hcursor'⟩ := hsame hagree
  exact ⟨p, rfl, hreads, hagree, halike, hcursor, hcursor'⟩

end Program

end TapeDebugger
