-- SUMMARY: A step that looks at every access and every sum before it makes it, and why it goes through in all states of a run.
import TapeDebugger.Proofs.Machine.Sound
import TapeDebugger.Proofs.Machine.Steps
import TapeDebugger.Proofs.Program.Directory
import TapeDebugger.Word

/-!
# Checked steps

`Program.step` reads past the end of an array as if there were a zero, and its counts are not
bounded. `Program.stepChecked?` does neither: it gives no state when the byte to execute lies outside
of the source, the head outside of the tape, a slot outside of the directory, or when a count would
leave its word. In a sound state of a program whose sizes are words, none of this happens
(`Sound.stepChecked?_eq`).
-/

namespace TapeDebugger

open Pairing (Directory)

/-! ## Checked accesses and sums -/

/-- The next count, if the word has room for it. -/
def Word.next? (n : Nat) : Option Nat := if n < Word.last then some (n + 1) else none

theorem Word.next?_of_lt {n : Nat} (h : n < Word.last) : Word.next? n = some (n + 1) := if_pos h

namespace Tape

/-- The cell under the head, if there is one. -/
def cell? (t : Tape) : Option UInt8 := t.cells[t.head]?

/-- Write the cell under the head, if there is one. -/
def put? (t : Tape) (value : UInt8) : Option Tape :=
  if t.head < t.cells.size then some (t.put value) else none

/-- Change the cell under the head, if there is one. -/
def modify? (t : Tape) (change : UInt8 → UInt8) : Option Tape := do
  let value ← t.cell?
  t.put? (change value)

def moveRight? (t : Tape) : Option Tape := do
  let next ← Word.next? t.head
  return if next < t.cells.size then { t with head := next } else t

variable {t : Tape}

theorem cell?_of_lt (h : t.head < t.size) : t.cell? = some t.cell := by
  have h : t.head < t.cells.size := h
  rw [cell?, cell, Array.getD_eq_getD_getElem?, Array.getElem?_eq_getElem h, Option.getD_some]

theorem put?_of_lt (h : t.head < t.size) (value : UInt8) : t.put? value = some (t.put value) :=
  if_pos h

theorem modify?_of_lt (h : t.head < t.size) (change : UInt8 → UInt8) :
    t.modify? change = some (t.put (change t.cell)) := by
  rw [modify?, cell?_of_lt h]
  exact put?_of_lt h _

theorem moveRight?_of_lt (h : t.head < Word.last) : t.moveRight? = some t.moveRight := by
  rw [moveRight?, Word.next?_of_lt h]
  rfl

end Tape

namespace Program

/-! ## The checked step -/

/-- The byte that is taken in and where the input goes on. -/
def readChecked? (p : Program) (s : State) : Option (UInt8 × Nat) :=
  match p.input[s.cursor]? with
  | some value => (Word.next? s.cursor).map fun cursor => (value, cursor)
  | none => some (0, s.cursor)

def landingChecked? (p : Program) (partner : Option Nat) : Option Nat :=
  match partner with
  | some position => Word.next? position
  | none => some p.source.size

/-- What an instruction does, as far as all it needs is there. -/
def performChecked? (p : Program) (d : Directory) (s : State) : Option Instruction → Option State
  | some .moveRight => do return { s with tape := ← s.tape.moveRight?, ip := ← Word.next? s.ip }
  | some .moveLeft => do return { s with tape := s.tape.moveLeft, ip := ← Word.next? s.ip }
  | some .increment => do return { s with tape := ← s.tape.modify? (· + 1), ip := ← Word.next? s.ip }
  | some .decrement => do return { s with tape := ← s.tape.modify? (· - 1), ip := ← Word.next? s.ip }
  | some .input => do
    let (value, cursor) ← p.readChecked? s
    return { s with tape := ← s.tape.put? value, cursor, ip := ← Word.next? s.ip }
  | some .output => do
    let value ← s.tape.cell?
    return { s with spool := s.spool.push (p.written value), ip := ← Word.next? s.ip }
  | some .loopOpen => do
    if (← s.tape.cell?) = 0 then
      return { s with ip := ← p.landingChecked? (← d.closerOf? s.ip) }
    else
      return { s with ip := ← Word.next? s.ip }
  | some .loopClose => do
    if (← s.tape.cell?) = 0 then
      return { s with ip := ← Word.next? s.ip }
    else
      return { s with ip := ← p.landingChecked? (← d.openerOf? s.ip) }
  | some .clear => do return { s with tape := ← s.tape.put? 0, ip := ← Word.next? s.ip }
  | none => do return { s with ip := ← Word.next? s.ip }

/-- Execute one byte, unless the state is stopped, and look before every access and every sum. -/
def stepChecked? (p : Program) (d : Directory) (s : State) : Option State :=
  if p.halted s then
    some s
  else do
    let byte ← p.source[s.ip]?
    let executed ← Word.next? s.executed
    let next ← p.performChecked? d s (Instruction.ofByte? p.settings.zeroClears byte)
    return { next with executed }

/-! ## It goes through -/

/-- The sizes of a program and its limit are words, as those of all that is held in memory. -/
structure InWords (p : Program) : Prop where
  source_le : p.source.size ≤ Word.last
  input_le : p.input.size ≤ Word.last
  tape_le : p.settings.tapeSize ≤ Word.last
  limit_le : p.settings.instructionLimit ≤ Word.last

variable {p : Program} {s : State}

theorem readChecked?_eq (hwords : p.InWords) (hcursor : s.cursor ≤ p.input.size) :
    p.readChecked? s = some (p.nextInput s, min (s.cursor + 1) p.input.size) := by
  rw [readChecked?, nextInput, Array.getD_eq_getD_getElem?]
  cases hread : p.input[s.cursor]? with
  | some value =>
    obtain ⟨hlt, -⟩ := Array.getElem?_eq_some_iff.1 hread
    have hword := Word.next?_of_lt (Nat.lt_of_lt_of_le hlt hwords.input_le)
    simp only [hword, Option.map_some, Option.getD_some, Nat.min_eq_left (Nat.succ_le_of_lt hlt)]
  | none =>
    have hge := Array.getElem?_eq_none_iff.1 hread
    rw [Nat.min_eq_right (by omega), Nat.le_antisymm hcursor hge]
    rfl

theorem landingChecked?_eq (hwords : p.InWords) {partner : Option Nat}
    (hland : p.landing partner ≤ p.source.size) :
    p.landingChecked? partner = some (p.landing partner) := by
  cases partner with
  | some position => exact Word.next?_of_lt (Nat.lt_of_lt_of_le hland hwords.source_le)
  | none => rfl

/-- In a sound state every instruction finds all that it needs. -/
theorem Sound.performChecked?_eq (h : p.Sound s) (hwords : p.InWords) (hip : s.ip < p.source.size)
    (i : Option Instruction) :
    p.performChecked? (.ofPairing p.pairing) s i = some (p.perform s i) := by
  have hhead := h.head_lt_size
  have hnext := Word.next?_of_lt (Nat.lt_of_lt_of_le hip hwords.source_le)
  have hcell := Tape.cell?_of_lt hhead
  have hput := Tape.put?_of_lt hhead
  have hmodify := Tape.modify?_of_lt hhead
  cases i with
  | none => simp [performChecked?, Program.perform, hnext]
  | some i =>
    cases i with
    | moveRight =>
      have hmove := Tape.moveRight?_of_lt (Nat.lt_of_lt_of_le h.head_lt hwords.tape_le)
      simp [performChecked?, Program.perform, hnext, hmove]
    | moveLeft => simp [performChecked?, Program.perform, hnext]
    | increment => simp [performChecked?, Program.perform, hnext, hmodify, Tape.increment]
    | decrement => simp [performChecked?, Program.perform, hnext, hmodify, Tape.decrement]
    | input =>
      have hread := readChecked?_eq hwords h.cursor_le
      simp [performChecked?, Program.perform, hnext, hput, hread]
    | output => simp [performChecked?, Program.perform, hnext, hcell]
    | loopOpen =>
      have hland := landingChecked?_eq hwords (p.landing_closerOf?_le s.ip)
      by_cases hzero : s.tape.cell = 0
      · simp [performChecked?, Program.perform, hcell, hzero, Directory.closerOf?_eq p.paired, hland]
      · simp [performChecked?, Program.perform, hcell, hzero, hnext]
    | loopClose =>
      have hland := landingChecked?_eq hwords (p.landing_openerOf?_le s.ip)
      by_cases hzero : s.tape.cell = 0
      · simp [performChecked?, Program.perform, hcell, hzero, hnext]
      · simp [performChecked?, Program.perform, hcell, hzero, Directory.openerOf?_eq p.paired, hland]
    | clear => simp [performChecked?, Program.perform, hnext, hput]

/-- In a sound state a checked step goes through, and does what a step does. -/
theorem Sound.stepChecked?_eq (h : p.Sound s) (hwords : p.InWords) :
    p.stepChecked? (.ofPairing p.pairing) s = some (p.step s) := by
  cases hs : p.halted s with
  | true => rw [stepChecked?, if_pos hs, step_of_halted hs]
  | false =>
    obtain ⟨-, hlimit, hip⟩ := halted_eq_false_iff.1 hs
    have hcount := Word.next?_of_lt (Nat.lt_of_lt_of_le hlimit hwords.limit_le)
    have hbyte := Array.getElem?_eq_getElem hip
    rw [step_of_halted_eq_false hs, Program.execute, instructionAt?_of_getElem? hbyte, stepChecked?,
      if_neg (by simp [hs]), hbyte, hcount]
    simp [h.performChecked?_eq hwords hip]

end Program

end TapeDebugger
