-- SUMMARY: A program ready to run: source, input and settings together with the paired brackets.
import TapeDebugger.Machine.Tape
import TapeDebugger.Settings
import TapeDebugger.Program.Pairing

/-!
# Programs

What stays the same during a run. A `Program` only exists for usable settings, for a source whose
brackets fit and for a tape that memory can be asked for, so whatever takes one needs no further check.

The check of the settings sets no upper bound on the tape. One that is too long is only met when it is
allocated, after the brackets, and then the process gives up.
-/

namespace TapeDebugger

structure Program where
  settings : Settings
  source : Array UInt8
  input : Array UInt8
  pairing : Pairing
  usable : settings.check = .ok ()
  paired : Pairing.ofSource settings.bracketCapacity source = .ok pairing
  allocated : (Tape.allocate? settings.tapeSize).isSome = true

namespace Program

/-- Check the settings, then pair the brackets, then ask for the tape. -/
def load (settings : Settings) (source input : Array UInt8) : Except Fault Program :=
  match usable : settings.check with
  | .error fault => .error fault
  | .ok () =>
    match paired : Pairing.ofSource settings.bracketCapacity source with
    | .error fault => .error fault
    | .ok pairing =>
      if allocated : (Tape.allocate? settings.tapeSize).isSome then
        .ok { settings, source, input, pairing, usable, paired, allocated }
      else
        .error .tapeTooLong

/-- Where a jump lands: after the partner, or at the end of the source when there is none. -/
def landing (p : Program) (partner : Option Nat) : Nat :=
  match partner with
  | some position => position + 1
  | none => p.source.size

end Program

end TapeDebugger
