-- SUMMARY: The safety of a run: bounds of every state, no access that fails, and little change from one state to the next.
import TapeDebugger.Proofs.Machine.Checked

/-!
# Safety

A step changes the cell under the head or moves the head by one cell, and it writes at most one byte
(`Tape.Near`, `bytes_step`). So what holds of the bytes written, and how far the input has been read,
is settled by counting along a run. Together with the bounds of sound states and with the checked
step this is all that keeps a run safe (`safe_of_steps`).
-/

namespace TapeDebugger

/-! ## The tape -/

/-- One tape comes from another by a change under the head or a move to a cell beside it. -/
structure Tape.Near (t u : Tape) : Prop where
  cells_eq : ∀ i, i ≠ t.head → u.cells[i]? = t.cells[i]?
  head_le : u.head ≤ t.head + 1
  le_head : t.head ≤ u.head + 1

namespace Tape

theorem near_refl (t : Tape) : t.Near t := ⟨fun _ _ => rfl, Nat.le_succ _, Nat.le_succ _⟩

theorem near_put (t : Tape) (value : UInt8) : t.Near (t.put value) :=
  ⟨fun _ hi => Array.getElem?_setIfInBounds_ne hi.symm, Nat.le_succ _, Nat.le_succ _⟩

theorem near_moveRight (t : Tape) : t.Near t.moveRight := by
  unfold moveRight
  split
  · exact ⟨fun _ _ => rfl, Nat.le_refl _, Nat.le_add_right _ 2⟩
  · exact t.near_refl

theorem near_moveLeft (t : Tape) : t.Near t.moveLeft := by
  refine ⟨fun _ _ => rfl, ?_, ?_⟩
  · rw [head_moveLeft]
    omega
  · rw [head_moveLeft]
    omega

end Tape

namespace Program

variable {p : Program} {s : State}

theorem near_perform (p : Program) (s : State) (i : Option Instruction) :
    s.tape.Near (p.perform s i).tape := by
  cases i with
  | none => exact s.tape.near_refl
  | some i =>
    cases i with
    | moveRight => exact s.tape.near_moveRight
    | moveLeft => exact s.tape.near_moveLeft
    | increment | decrement | input | clear => exact s.tape.near_put _
    | output | loopOpen | loopClose => exact s.tape.near_refl

theorem near_step (p : Program) (s : State) : s.tape.Near (p.step s).tape := by
  cases hs : p.halted s with
  | true => rw [step_of_halted hs]; exact s.tape.near_refl
  | false => rw [step_of_halted_eq_false hs]; exact p.near_perform s _

/-! ## The output -/

/-- A step writes the current cell, or nothing. -/
theorem bytes_step (p : Program) (s : State) :
    (p.step s).spool.bytes = s.spool.bytes ∨
      (p.step s).spool.bytes = s.spool.bytes.push (p.written s.tape.cell) := by
  cases hs : p.halted s with
  | true => rw [step_of_halted hs]; exact .inl rfl
  | false =>
    have hroom := (halted_eq_false_iff.1 hs).1
    rw [step_of_halted_eq_false hs]
    by_cases hi : p.instructionAt? s.ip = some .output
    · refine .inr ?_
      simp only [execute, hi, perform]
      exact Spool.bytes_push_of_not_isFull (by simp [hroom]) _
    · exact .inl (congrArg Spool.bytes (spool_perform_of_ne_output hi))

theorem written_lt (h : p.settings.sevenBit = true) (value : UInt8) : p.written value < 128 := by
  rw [written, if_pos h]
  exact UInt8.mod_lt _ (by decide)

/-- In the dialect of seven bits no byte of the output has its top bit. -/
theorem sevenBit_steps (h : p.settings.sevenBit = true) (n : Nat) :
    ∀ byte ∈ (p.steps n p.start).spool.bytes, byte < 128 := by
  induction n with
  | zero =>
    intro byte hmem
    exact absurd hmem (Array.not_mem_empty byte)
  | succ n ih =>
    rw [steps_succ]
    intro byte hmem
    rcases p.bytes_step (p.steps n p.start) with hsame | hpush
    · exact ih byte (hsame ▸ hmem)
    · rw [hpush] at hmem
      rcases Array.mem_push.1 hmem with hold | rfl
      · exact ih byte hold
      · exact written_lt h _

/-! ## The input -/

theorem cursor_perform_of_ne_input {i : Option Instruction} (hi : i ≠ some .input) :
    (p.perform s i).cursor = s.cursor := by
  cases i with
  | none => rfl
  | some i =>
    cases i with
    | input => exact absurd rfl hi
    | _ => rfl

/-- Every input executed takes one byte, as long as there are any. -/
theorem cursor_steps (h : s.cursor ≤ p.input.size) (n : Nat) :
    (p.steps n s).cursor = min (s.cursor + p.executions (some .input) n s) p.input.size := by
  induction n with
  | zero => exact (Nat.min_eq_left h).symm
  | succ n ih =>
    rw [steps_succ, executions_succ]
    cases hs : p.halted (p.steps n s) with
    | true =>
      rw [step_of_halted hs, if_neg (by simp)]
      exact ih
    | false =>
      rw [step_of_halted_eq_false hs, execute]
      by_cases hi : p.instructionAt? (p.steps n s).ip = some .input
      · rw [if_pos ⟨rfl, hi⟩]
        simp only [hi, perform, ih]
        omega
      · rw [if_neg fun h => hi h.2]
        exact (cursor_perform_of_ne_input hi).trans ih

/-! ## All of it -/

/-- Every state of a run is safe. The tape keeps its cells and the head stays on it; the instruction
pointer stays within the source, and short of its end unless the state is stopped; the input has been
read as often as an input was executed, up to its end; the output is within its limit, and of seven
bits if it is to be; the count is within the limit, so a word that holds the limit holds the count.
The slots of the brackets are within both arrays of the directory, and a step that checks every access
and every sum goes through. From one state to the next at most one byte is written, at most the cell
under the head is changed, and the head moves by at most one cell. -/
theorem safe_of_steps (p : Program) (k : Nat) :
    let s := p.steps k p.start
    let next := p.steps (k + 1) p.start
    let directory := Pairing.Directory.ofPairing p.pairing
    (s.tape.cells.size = p.settings.tapeSize ∧ s.tape.head < p.settings.tapeSize) ∧
    (s.ip ≤ p.source.size ∧ (p.halted s = false → s.ip < p.source.size)) ∧
    (s.cursor ≤ p.input.size ∧ s.cursor = min (p.executions (some .input) k p.start) p.input.size) ∧
    (s.spool.bytes.size ≤ max 1 (p.settings.outputCapacity - 1) ∧
      (p.settings.sevenBit = true → ∀ byte ∈ s.spool.bytes, byte < 128)) ∧
    (s.executed ≤ p.settings.instructionLimit ∧
      (p.settings.instructionLimit ≤ Word.last → Word.wrap s.executed = s.executed)) ∧
    (∀ position slot, directory.openers.slotOf? position = some slot ∨
        directory.closers.slotOf? position = some slot →
      slot < directory.openers.positions.size ∧ slot < directory.closers.positions.size) ∧
    (p.InWords → p.stepChecked? directory s = some next) ∧
    (next.spool.bytes = s.spool.bytes ∨ ∃ byte, next.spool.bytes = s.spool.bytes.push byte) ∧
    (∀ i, i ≠ s.tape.head → next.tape.cells[i]? = s.tape.cells[i]?) ∧
    (next.tape.head ≤ s.tape.head + 1 ∧ s.tape.head ≤ next.tape.head + 1) := by
  intro s next directory
  have hsound : p.Sound s := p.sound_steps k
  have hnext : next = p.step s := p.steps_succ k p.start
  have hnear : s.tape.Near next.tape := hnext ▸ p.near_step s
  refine ⟨⟨hsound.size_tape, hsound.head_lt⟩, ⟨hsound.ip_le, fun hs => ?_⟩,
    ⟨hsound.cursor_le, ?_⟩, ⟨?_, fun h => sevenBit_steps h k⟩,
    ⟨hsound.executed_le, fun h => ?_⟩, fun _ _ => Pairing.Directory.slotOf?_lt_size,
    fun hwords => ?_, ?_, hnear.cells_eq, hnear.head_le, hnear.le_head⟩
  · exact (halted_eq_false_iff.1 hs).2.2
  · have hcursor := cursor_steps (p := p) (s := p.start) (Nat.zero_le _) k
    rwa [show p.start.cursor = 0 from rfl, Nat.zero_add] at hcursor
  · rw [← hsound.limit_spool]
    exact hsound.written_le
  · exact Word.wrap_eq_self (Nat.le_trans hsound.executed_le h)
  · rw [hnext]
    exact hsound.stepChecked?_eq hwords
  · rw [hnext]
    rcases p.bytes_step s with hsame | hpush
    · exact .inl hsame
    · exact .inr ⟨_, hpush⟩

end Program

end TapeDebugger
