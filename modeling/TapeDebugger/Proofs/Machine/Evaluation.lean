-- SUMMARY: Structured evaluation of an outline: loops as loops, without an instruction pointer and without limits.
import TapeDebugger.Machine
import TapeDebugger.Proofs.Program.Outline
import Mathlib.Logic.Relator

/-!
# Structured evaluation

An outline is evaluated without an instruction pointer, without jumps and without limits: a loop
repeats its body as long as the current cell is not zero, and a lone bracket that would have to jump
ends the evaluation. `Outline.Evaluates` is this relation. An evaluation that does not end has no
result, and one that ends has only one (`Outline.rightUnique_evaluates`).
-/

namespace TapeDebugger

/-- What evaluation works on: a state without instruction pointer and without limits. -/
structure Store where
  tape : Tape
  /-- The number of input bytes consumed. -/
  cursor : Nat
  output : Array UInt8
  /-- The number of bytes executed, comments included. -/
  executed : Nat

namespace Store

def start (p : Program) : Store where
  tape := .blank p.settings.tapeSize
  cursor := 0
  output := #[]
  executed := 0

/-- Execute a byte that changes nothing else. -/
def tick (s : Store) : Store := { s with executed := s.executed + 1 }

/-- Execute a byte that is no bracket. -/
def plain (p : Program) (byte : UInt8) (s : Store) : Store :=
  match Instruction.ofByte? p.settings.zeroClears byte with
  | some .moveRight => { s.tick with tape := s.tape.moveRight }
  | some .moveLeft => { s.tick with tape := s.tape.moveLeft }
  | some .increment => { s.tick with tape := s.tape.increment }
  | some .decrement => { s.tick with tape := s.tape.decrement }
  | some .input =>
    { s.tick with
      tape := s.tape.put (p.input.getD s.cursor 0)
      cursor := min (s.cursor + 1) p.input.size }
  | some .output => { s.tick with output := s.output.push (p.written s.tape.cell) }
  | some .clear => { s.tick with tape := s.tape.put 0 }
  | some .loopOpen | some .loopClose | none => s.tick

/-- The machine's state with this store at a position. -/
def stateAt (s : Store) (p : Program) (ip : Nat) : State where
  tape := s.tape
  ip
  cursor := s.cursor
  spool := { capacity := p.settings.outputCapacity, bytes := s.output }
  executed := s.executed

theorem stateAt_injective {p : Program} {ip : Nat} {s t : Store}
    (h : s.stateAt p ip = t.stateAt p ip) : s = t := by
  cases s
  cases t
  simpa [stateAt] using h

/-- The limits of a program are not reached. -/
def Within (p : Program) (s : Store) : Prop :=
  s.executed < p.settings.instructionLimit ∧
    s.output.size < max 1 (p.settings.outputCapacity - 1)

/-- Nothing executed or written is taken back. -/
def Grows (s t : Store) : Prop := s.executed ≤ t.executed ∧ s.output.size ≤ t.output.size

theorem Grows.trans {s t u : Store} (h : s.Grows t) (h' : t.Grows u) : s.Grows u :=
  ⟨Nat.le_trans h.1 h'.1, Nat.le_trans h.2 h'.2⟩

theorem Grows.within {p : Program} {s t : Store} (h : s.Grows t) (ht : t.Within p) : s.Within p :=
  ⟨Nat.lt_of_le_of_lt h.1 ht.1, Nat.lt_of_le_of_lt h.2 ht.2⟩

theorem grows_tick (s : Store) : s.Grows s.tick := ⟨Nat.le_succ _, Nat.le_refl _⟩

theorem grows_plain (p : Program) (byte : UInt8) (s : Store) : s.Grows (s.plain p byte) := by
  unfold plain
  split
  case h_6 => exact ⟨Nat.le_succ _, by rw [Array.size_push]; exact Nat.le_succ _⟩
  all_goals exact s.grows_tick

end Store

/-! ## Evaluation -/

namespace Outline

/-- Repeat a turn as long as the current cell is not zero. -/
inductive While (turn : Store → Store → Prop) : Store → Store → Prop where
  | stop {s : Store} (hzero : s.tape.cell = 0) : While turn s s
  | again {s t u : Store} (hcell : s.tape.cell ≠ 0) (hturn : turn s t) (hrest : While turn t u) :
      While turn s u

/-- A loop executes its opening bracket once, and then in every turn its body and its closing
bracket. -/
def Loop (body : Store → Store → Prop) (s t : Store) : Prop :=
  While (fun s t => ∃ u, body s u ∧ u.tick = t) s.tick t

/-- Evaluation of code from one store ends in another. -/
def Code.Evaluates (p : Program) : Code → Store → Store → Prop
  | .nil, s, t => s = t
  | .byte b rest, s, t => rest.Evaluates p (s.plain p b.val) t
  | .loop body rest, s, t => ∃ u, Loop (body.Evaluates p) s u ∧ rest.Evaluates p u t

/-- Evaluation of a whole outline: a lone opening bracket ends it on a zero, a lone closing bracket
on any other cell. -/
def Evaluates (p : Program) : List Item → Store → Store → Prop
  | [], s, t => s = t
  | .byte b :: items, s, t => Evaluates p items (s.plain p b.val) t
  | .loop body :: items, s, t => ∃ u, Loop (body.Evaluates p) s u ∧ Evaluates p items u t
  | .loneClose :: items, s, t =>
    if s.tape.cell = 0 then Evaluates p items s.tick t else s.tick = t
  | .loneOpen :: items, s, t =>
    if s.tape.cell = 0 then s.tick = t else Evaluates p items s.tick t

/-! ## At most one result -/

open Relator (RightUnique)

theorem rightUnique_while {turn : Store → Store → Prop} (h : RightUnique turn) :
    RightUnique (While turn) := by
  intro s t u ht hu
  induction ht with
  | stop hzero =>
    cases hu with
    | stop => rfl
    | again hcell => exact absurd hzero hcell
  | again hcell hturn _ ih =>
    cases hu with
    | stop hzero => exact absurd hzero hcell
    | again _ hturn' hrest =>
      obtain rfl := h hturn hturn'
      exact ih hrest

theorem rightUnique_loop {body : Store → Store → Prop} (h : RightUnique body) :
    RightUnique (Loop body) := by
  have hturn : RightUnique fun s t => ∃ u, body s u ∧ u.tick = t := by
    rintro s _ _ ⟨t, ht, rfl⟩ ⟨u, hu, rfl⟩
    rw [h ht hu]
  intro s t u ht hu
  exact rightUnique_while hturn ht hu

theorem rightUnique_ite {R Q : Store → Store → Prop} (hR : RightUnique R) (hQ : RightUnique Q) :
    RightUnique fun s t : Store => if s.tape.cell = 0 then R s t else Q s t := by
  intro s t u ht hu
  split at ht
  · rename_i hcell
    rw [if_pos hcell] at hu
    exact hR ht hu
  · rename_i hcell
    rw [if_neg hcell] at hu
    exact hQ ht hu

theorem Code.rightUnique_evaluates (p : Program) (code : Code) :
    RightUnique (code.Evaluates p) := by
  induction code with
  | nil => exact fun _ _ _ ht hu => ht.symm.trans hu
  | byte b rest ih => exact fun _ _ _ ht hu => ih ht hu
  | loop body rest ihb ihr =>
    rintro s t u ⟨v, hv, ht⟩ ⟨w, hw, hu⟩
    obtain rfl := rightUnique_loop ihb hv hw
    exact ihr ht hu

/-- An evaluation has at most one result. -/
theorem rightUnique_evaluates (p : Program) (items : List Item) :
    RightUnique (Evaluates p items) := by
  induction items with
  | nil => exact fun _ _ _ ht hu => ht.symm.trans hu
  | cons item items ih =>
    cases item with
    | byte b => exact fun _ _ _ ht hu => ih ht hu
    | loop body =>
      rintro s t u ⟨v, hv, ht⟩ ⟨w, hw, hu⟩
      obtain rfl := rightUnique_loop (body.rightUnique_evaluates p) hv hw
      exact ih ht hu
    | loneClose =>
      exact rightUnique_ite (fun _ _ _ ht hu => ih ht hu) fun _ _ _ ht hu => ht.symm.trans hu
    | loneOpen =>
      exact rightUnique_ite (fun _ _ _ ht hu => ht.symm.trans hu) fun _ _ _ ht hu => ih ht hu

end Outline

end TapeDebugger
