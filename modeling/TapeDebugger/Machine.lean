-- SUMMARY: The machine: its state, what each instruction does to it, and when it stops.
import TapeDebugger.Machine.Spool
import TapeDebugger.Machine.Tape
import TapeDebugger.Program
import TapeDebugger.Program.Instruction

/-!
# The machine

`Program.step` executes one byte of the source. A state is stopped when `Program.halt?` gives a
reason, and then a step changes nothing. The reason is read off the state: a full output comes
before the instruction limit, and that before the end of the source.
-/

namespace TapeDebugger

/-- What changes during a run. -/
structure State where
  tape : Tape
  /-- The position in the source of the byte to be executed next. -/
  ip : Nat
  /-- The number of input bytes consumed. -/
  cursor : Nat
  spool : Spool
  /-- The number of bytes executed, comments included. -/
  executed : Nat
  deriving Repr, DecidableEq

/-- Why a run has stopped. -/
inductive Halt where
  | outputFull
  | limitReached
  | sourceEnded
  deriving Repr, DecidableEq

def Halt.message : Halt → String
  | .outputFull => "output full"
  | .limitReached => "instruction limit reached"
  | .sourceEnded => "source exhausted"

namespace Program

/-- The state before the first step. -/
def start (p : Program) : State where
  tape := .blank p.settings.tapeSize
  ip := 0
  cursor := 0
  spool := { capacity := p.settings.outputCapacity }
  executed := 0

/-! ## Stopping -/

def halt? (p : Program) (s : State) : Option Halt :=
  if s.spool.isFull then some .outputFull
  else if p.settings.instructionLimit ≤ s.executed then some .limitReached
  else if p.source.size ≤ s.ip then some .sourceEnded
  else none

def halted (p : Program) (s : State) : Bool := (p.halt? s).isSome

theorem halted_eq_false_iff {p : Program} {s : State} :
    p.halted s = false ↔
      s.spool.isFull = false ∧ s.executed < p.settings.instructionLimit ∧ s.ip < p.source.size := by
  grind [halted, halt?]

theorem halted_of_limit_le {p : Program} {s : State} (h : p.settings.instructionLimit ≤ s.executed) :
    p.halted s = true := by
  cases hs : p.halted s with
  | true => rfl
  | false => have := (halted_eq_false_iff.1 hs).2.1; omega

/-! ## One step -/

/-- The instruction at a position; a comment is none. -/
def instructionAt? (p : Program) (position : Nat) : Option Instruction :=
  Instruction.ofByte? p.settings.zeroClears (p.source.getD position 0)

/-- The next input byte; after the last one only zeros follow. -/
def nextInput (p : Program) (s : State) : UInt8 := p.input.getD s.cursor 0

/-- The byte that a cell value is written as. -/
def written (p : Program) (value : UInt8) : UInt8 :=
  if p.settings.sevenBit then value % 128 else value

/-- What an instruction does to everything but the count of executed bytes. -/
def perform (p : Program) (s : State) : Option Instruction → State
  | some .moveRight => { s with tape := s.tape.moveRight, ip := s.ip + 1 }
  | some .moveLeft => { s with tape := s.tape.moveLeft, ip := s.ip + 1 }
  | some .increment => { s with tape := s.tape.increment, ip := s.ip + 1 }
  | some .decrement => { s with tape := s.tape.decrement, ip := s.ip + 1 }
  | some .input =>
    { s with
      tape := s.tape.put (p.nextInput s)
      cursor := min (s.cursor + 1) p.input.size
      ip := s.ip + 1 }
  | some .output => { s with spool := s.spool.push (p.written s.tape.cell), ip := s.ip + 1 }
  | some .loopOpen =>
    { s with ip := if s.tape.cell = 0 then p.landing (p.pairing.closerOf? s.ip) else s.ip + 1 }
  | some .loopClose =>
    { s with ip := if s.tape.cell = 0 then s.ip + 1 else p.landing (p.pairing.openerOf? s.ip) }
  | some .clear => { s with tape := s.tape.put 0, ip := s.ip + 1 }
  | none => { s with ip := s.ip + 1 }

/-- Execute the byte at the instruction pointer and count it. -/
def execute (p : Program) (s : State) : State :=
  let next := p.perform s (p.instructionAt? s.ip)
  { next with executed := next.executed + 1 }

/-- Execute one byte, unless the state is stopped. -/
def step (p : Program) (s : State) : State :=
  if p.halted s then s else p.execute s

@[simp] theorem executed_perform (p : Program) (s : State) (i : Option Instruction) :
    (p.perform s i).executed = s.executed := by
  cases i with
  | none => rfl
  | some i => cases i <;> rfl

@[simp] theorem executed_execute (p : Program) (s : State) :
    (p.execute s).executed = s.executed + 1 := by
  simp only [execute, executed_perform]

theorem step_of_halted {p : Program} {s : State} (h : p.halted s) : p.step s = s := by
  simp only [step, h, if_true]

theorem step_of_not_halted {p : Program} {s : State} (h : ¬ p.halted s) : p.step s = p.execute s := by
  simp only [step, h]; rfl

end Program

end TapeDebugger
