-- SUMMARY: The instruction set: one byte is one instruction or a comment.

/-!
# Instructions

Every byte of a source is one instruction or a comment. `Instruction.ofByte?` reads a byte,
`Instruction.symbol` writes one; the byte `0` is an instruction only in the dialect that has it.
-/

namespace TapeDebugger

inductive Instruction where
  | moveRight
  | moveLeft
  | increment
  | decrement
  /-- Take the next byte of input into the current cell. -/
  | input
  /-- Write the current cell to the output. -/
  | output
  /-- Skip past the partner when the current cell is zero. -/
  | loopOpen
  /-- Go back past the partner when the current cell is not zero. -/
  | loopClose
  /-- Set the current cell to zero. -/
  | clear
  deriving Repr, DecidableEq

namespace Instruction

def symbol : Instruction → Char
  | moveRight => '>'
  | moveLeft => '<'
  | increment => '+'
  | decrement => '-'
  | input => ','
  | output => '.'
  | loopOpen => '['
  | loopClose => ']'
  | clear => '0'

/-- The instruction that a byte stands for; a comment stands for none. -/
def ofByte? (zeroClears : Bool) (byte : UInt8) : Option Instruction :=
  match byte with
  | 0x3e => some moveRight
  | 0x3c => some moveLeft
  | 0x2b => some increment
  | 0x2d => some decrement
  | 0x2c => some input
  | 0x2e => some output
  | 0x5b => some loopOpen
  | 0x5d => some loopClose
  | 0x30 => if zeroClears then some clear else none
  | _ => none

theorem ofByte?_symbol (i : Instruction) : ofByte? true i.symbol.toUInt8 = some i := by
  cases i <;> decide

theorem ofByte?_symbol_of_ne_clear (zeroClears : Bool) {i : Instruction} (h : i ≠ clear) :
    ofByte? zeroClears i.symbol.toUInt8 = some i := by
  cases i with
  | clear => exact absurd rfl h
  | _ => rfl

end Instruction

/-- The byte that marks a breakpoint. To a run it is a comment. -/
def breakpoint : UInt8 := 0x21

theorem Instruction.ofByte?_breakpoint (zeroClears : Bool) :
    Instruction.ofByte? zeroClears breakpoint = none := by
  cases zeroClears <;> decide

end TapeDebugger
