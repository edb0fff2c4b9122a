-- SUMMARY: What a recording keeps of one state: everything but the output, of which it keeps the length.
import TapeDebugger.Machine

/-!
# Frames

Output only ever grows, so a frame keeps its length and the bytes stay with the state that wrote
them.
-/

namespace TapeDebugger

/-- One state of a run as it is recorded. -/
structure Frame where
  tape : Tape
  ip : Nat
  cursor : Nat
  /-- The number of bytes written so far. -/
  written : Nat
  executed : Nat
  halt : Option Halt
  deriving Repr, DecidableEq

namespace Frame

def capture (p : Program) (s : State) : Frame where
  tape := s.tape
  ip := s.ip
  cursor := s.cursor
  written := s.spool.bytes.size
  executed := s.executed
  halt := p.halt? s

/-- The bytes that a frame is counted for: one for each cell and a fixed part for the rest. -/
def size (f : Frame) : Nat := 72 + f.tape.size

end Frame

end TapeDebugger
