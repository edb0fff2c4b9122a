-- SUMMARY: The limits and dialect options of a run, their defaults, and which of them are usable.
import TapeDebugger.Fault

/-!
# Settings

A run is bounded in four ways: cells of the tape, slots for brackets, executed instructions and
bytes of output. Two more options choose the dialect.
-/

namespace TapeDebugger

/-- The limits and the dialect of a run. -/
structure Settings where
  tapeSize : Nat := 2048
  bracketCapacity : Nat := 1024
  instructionLimit : Nat := 33554432
  /-- Bytes of output, one of them reserved for a terminator. -/
  outputCapacity : Nat := 65536
  /-- Written bytes lose their top bit. -/
  sevenBit : Bool := true
  /-- The byte `0` is an instruction that clears the current cell. -/
  zeroClears : Bool := false
  deriving Repr, DecidableEq

namespace Settings

/-- Settings are usable when the tape has a cell and the output has room; the tape is looked at
first. -/
def check (s : Settings) : Except Fault Unit :=
  if s.tapeSize = 0 then .error .noCells
  else if s.outputCapacity = 0 then .error .noRoom
  else .ok ()

theorem check_eq_ok_iff {s : Settings} :
    s.check = .ok () ↔ 0 < s.tapeSize ∧ 0 < s.outputCapacity := by
  grind [check]

end Settings

end TapeDebugger
