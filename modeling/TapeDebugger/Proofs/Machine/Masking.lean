-- SUMMARY: Whether written bytes keep their top bit makes no difference to a run but in the bytes of its output.
import TapeDebugger.Proofs.Machine.Sound
import TapeDebugger.Proofs.Machine.Steps

/-!
# Masked output

A program that writes seven bits and the same program writing eight go through the same states but for
the bytes of the output, which are those of the other one with the top bit cleared (`steps_sevenBit`).
The mask is applied to a copy of the cell on its way to the output. Nothing is ever read back from there,
and whether the output is full depends only on how many bytes it has.
-/

namespace TapeDebugger

-- ---------------------------------------------------------------------------
-- Masks
-- ---------------------------------------------------------------------------

theorem mask_mask (byte : UInt8) : byte % 128 % 128 = byte % 128 := by
  apply UInt8.toNat_inj.1
  rw [UInt8.toNat_mod, UInt8.toNat_mod]
  exact Nat.mod_mod _ _

namespace Spool

/-- The same spool with the top bit of every byte cleared. -/
def masked (s : Spool) : Spool := { s with bytes := s.bytes.map (· % 128) }

@[simp] theorem isFull_masked (s : Spool) : s.masked.isFull = s.isFull := by
  have hsize : s.masked.bytes.size = s.bytes.size := Array.size_map
  rw [isFull, isFull, decide_eq_decide, hsize]
  exact Iff.rfl

/-- Masking before or after a byte is pushed is the same. -/
theorem push_masked (s : Spool) (byte : UInt8) :
    s.masked.push (byte % 128) = (s.push byte).masked := by
  unfold push
  rw [isFull_masked]
  split
  · rfl
  · simp only [masked, Array.map_push]

end Spool

/-- The same state with the top bit of every written byte cleared. -/
def State.masked (s : State) : State := { s with spool := s.spool.masked }

namespace Program

variable {p : Program} {s : State}

-- ---------------------------------------------------------------------------
-- The same states
-- ---------------------------------------------------------------------------

/-- The same program with an output of seven bits. -/
def sevenBit (p : Program) : Program :=
  p.withSettings { p.settings with sevenBit := true } p.usable rfl p.tapeSize_le

theorem written_sevenBit (p : Program) (value : UInt8) :
    p.sevenBit.written value = p.written value % 128 := by
  have hmask : p.sevenBit.written value = value % 128 := rfl
  rw [hmask, written]
  split
  · exact (mask_mask value).symm
  · rfl

theorem perform_sevenBit (p : Program) (s : State) (i : Option Instruction) :
    p.sevenBit.perform s.masked i = (p.perform s i).masked := by
  cases i with
  | none => rfl
  | some i =>
    cases i with
    | output =>
      have hpush := s.spool.push_masked (p.written s.tape.cell)
      rw [← written_sevenBit] at hpush
      exact congrArg (fun spool => { s with spool, ip := s.ip + 1 }) hpush
    | _ => rfl

theorem execute_sevenBit (p : Program) (s : State) :
    p.sevenBit.execute s.masked = (p.execute s).masked := by
  have hinstr : p.sevenBit.instructionAt? s.masked.ip = p.instructionAt? s.ip := rfl
  rw [execute, execute, hinstr, perform_sevenBit]
  rfl

theorem halt?_sevenBit (p : Program) (s : State) : p.sevenBit.halt? s.masked = p.halt? s := by
  have hfull : s.masked.spool.isFull = s.spool.isFull := s.spool.isFull_masked
  rw [halt?, halt?, hfull]
  rfl

theorem step_sevenBit (p : Program) (s : State) :
    p.sevenBit.step s.masked = (p.step s).masked := by
  rw [step, step, halted, halted, halt?_sevenBit, execute_sevenBit]
  split <;> rfl

/-- After any number of steps the states are the same but for the mask. -/
theorem steps_sevenBit (p : Program) (n : Nat) (s : State) :
    p.sevenBit.steps n s.masked = (p.steps n s).masked := by
  induction n generalizing s with
  | zero => rfl
  | succ n ih => rw [steps, steps, step_sevenBit, ih]

theorem run_sevenBit (p : Program) (s : State) :
    p.sevenBit.run s.masked = (p.run s).masked := by
  rw [run_eq_steps, run_eq_steps]
  exact p.steps_sevenBit _ s

/-- The result is the same but for the mask. -/
theorem finish_sevenBit (p : Program) (s : State) :
    p.sevenBit.finish s.masked =
      { p.finish s with output := (p.finish s).output.map (· % 128) } := by
  have hhalt : p.sevenBit.halt? (p.sevenBit.run s.masked) = some (p.finish s).halt := by
    rw [run_sevenBit, halt?_sevenBit]
    exact halt_finish_iff.1 rfl
  rw [finish_eq hhalt, run_sevenBit]
  rfl

-- ---------------------------------------------------------------------------
-- Two settings
-- ---------------------------------------------------------------------------

/-- What is loaded under settings that differ only in the mask is the same program with an output of
seven bits. -/
theorem eq_sevenBit_of_load {settings : Settings} {source input : Array UInt8} {q : Program}
    (hp : load { settings with sevenBit := true } source input = .ok p)
    (hq : load { settings with sevenBit := false } source input = .ok q) : p = q.sevenBit := by
  obtain ⟨hsettings, rfl, rfl⟩ := parts_of_load hq
  have hmasked : { q.settings with sevenBit := true } = { settings with sevenBit := true } := by
    rw [hsettings]
  rw [← hmasked] at hp
  obtain ⟨-, -, rfl⟩ := exists_eq_withSettings_of_load hp rfl
  rfl

/-- The mask has no effect on execution. Under settings that differ only in it, a source on an input
executes the same number of instructions, stops for the same reason, and writes the same bytes modulo
128. After every number of steps tape, instruction pointer, input and count are the same, so is the reason
to stop, and each byte written so far is the other one modulo 128. -/
theorem output_masked_of_load (settings : Settings) {source input : Array UInt8} {q : Program}
    (hp : load { settings with sevenBit := true } source input = .ok p)
    (hq : load { settings with sevenBit := false } source input = .ok q) :
    (∃ masked plain,
      interpret { settings with sevenBit := true } source input = .ok masked ∧
      interpret { settings with sevenBit := false } source input = .ok plain ∧
      masked.executed = plain.executed ∧
      masked.halt = plain.halt ∧
      masked.output = plain.output.map (· % 128)) ∧
    ∀ k : Nat,
      let s := p.steps k p.start
      let t := q.steps k q.start
      s.tape.cells = t.tape.cells ∧
      s.tape.head = t.tape.head ∧
      s.ip = t.ip ∧
      s.cursor = t.cursor ∧
      s.executed = t.executed ∧
      p.halt? s = q.halt? t ∧
      s.spool.bytes.size = t.spool.bytes.size ∧
      ∀ i : Nat, s.spool.bytes[i]? = t.spool.bytes[i]?.map (· % 128) := by
  have hinterpret := interpret_of_load hp
  have hinterpret' := interpret_of_load hq
  obtain rfl := eq_sevenBit_of_load hp hq
  have hstart : q.sevenBit.start = q.start.masked := by
    simp only [start, State.masked, Spool.masked, Array.map_empty]
    rfl
  have hfinish := q.finish_sevenBit q.start
  refine ⟨⟨_, _, hinterpret, hinterpret', ?_, ?_, ?_⟩, fun k => ?_⟩
  · rw [hstart, hfinish]
  · rw [hstart, hfinish]
  · rw [hstart, hfinish]
  · intro s t
    have hs : s = t.masked := by
      have hsteps := q.steps_sevenBit k q.start
      rwa [← hstart] at hsteps
    rw [hs]
    refine ⟨rfl, rfl, rfl, rfl, rfl, q.halt?_sevenBit t, ?_, fun i => ?_⟩
    · exact Array.size_map
    · exact Array.getElem?_map

/-- The program `-.+.+` writes 255 and then 0. Of seven bits that is 127 and 0, and an output of capacity
three is full with either before the last instruction. -/
theorem output_masked_of_load_until_full :
    ∃ p q,
      load { tapeSize := 1, outputCapacity := 3, sevenBit := true } #[0x2d, 0x2e, 0x2b, 0x2e, 0x2b] #[] =
        .ok p ∧
      load { tapeSize := 1, outputCapacity := 3, sevenBit := false } #[0x2d, 0x2e, 0x2b, 0x2e, 0x2b] #[] =
        .ok q ∧
      (q.steps 4 q.start).spool.bytes = #[255, 0] ∧
      (p.steps 4 p.start).spool.bytes[0]? = some 127 ∧
      p.halt? (p.steps 4 p.start) = some .outputFull := by
  let q : Program := ⟨{ tapeSize := 1, outputCapacity := 3, sevenBit := false },
    #[0x2d, 0x2e, 0x2b, 0x2e, 0x2b], #[], ⟨#[], Array.replicate 5 none, Array.replicate 5 none⟩, rfl, rfl, rfl⟩
  have hplain : load { tapeSize := 1, outputCapacity := 3, sevenBit := false }
    #[0x2d, 0x2e, 0x2b, 0x2e, 0x2b] #[] = .ok q := rfl
  have hmasked : load { tapeSize := 1, outputCapacity := 3, sevenBit := true }
    #[0x2d, 0x2e, 0x2b, 0x2e, 0x2b] #[] = .ok q.sevenBit := rfl
  have hbytes : (q.steps 4 q.start).spool.bytes = #[255, 0] := by decide +kernel
  have hhalt : q.halt? (q.steps 4 q.start) = some .outputFull := by decide +kernel
  obtain ⟨-, -, -, -, -, hsame, -, hmask⟩ :=
    (output_masked_of_load { tapeSize := 1, outputCapacity := 3 } hmasked hplain).2 4
  refine ⟨q.sevenBit, q, hmasked, hplain, hbytes, ?_, hsame.trans hhalt⟩
  rw [hmask 0, hbytes]
  rfl

end Program

end TapeDebugger
