-- SUMMARY: A recorded run that can be walked in both directions: one frame per step, one of them shown.
import TapeDebugger.Machine.Run
import TapeDebugger.Recording.Archive

/-!
# Recordings

A recording owns one live state, the furthest one reached, and a frame for every state from where it
began up to the live one. Going back shows an older frame. Going forward shows the next frame when
there is one, and otherwise executes one step on the live state and records it.

A move answers with its outcome together with the recording that it leaves; a move that fails half
way keeps the part that succeeded. Its outcome is a crash if the archive would count beyond its word.
Frames that memory holds never do that.
-/

namespace TapeDebugger

structure Recording where
  program : Program
  /-- The state of the newest frame. -/
  live : State
  archive : Archive
  /-- The position of the frame on show. -/
  position : Nat
  /-- The frame on show. -/
  shown : Frame

namespace Recording

/-- The outcome of a move, and the recording afterwards. -/
abbrev Move (α : Type) := Except Fault α × Recording

/-- Begin a recording at a state. -/
def start (program : Program) (live : State) (budget : Nat) : Except Fault Recording :=
  let shown := Frame.capture program live
  match Archive.add? { budget } shown with
  | some (.ok archive) => .ok { program, live, archive, position := 0, shown }
  | some (.error overflow) => .error (.budgetExhausted overflow.used overflow.budget)
  | none => .error .countOverflow

/-! ## What is on show -/

/-- The number of frames recorded. -/
def length (r : Recording) : Nat := r.archive.size

/-- Whether the frame on show is the last of its run. -/
def atEnd (r : Recording) : Bool := r.shown.halt.isSome

/-- Whether the frame on show points at a breakpoint. -/
def atBreakpoint (r : Recording) : Bool := r.program.source[r.shown.ip]? == some breakpoint

/-- The output up to the frame on show. -/
def output (r : Recording) : Array UInt8 := r.live.spool.bytes.take r.shown.written

/-- Whether the whole run is recorded. -/
def complete (r : Recording) : Bool := r.program.halted r.live

/-! ## Single moves -/

/-- Show the frame at a position. -/
def goTo (r : Recording) (position : Nat) : Move Unit :=
  match r.archive.get? position with
  | some shown => (.ok (), { r with position, shown })
  | none => (.error .frameMissing, r)

/-- Execute one step on the live state and record it. The budget is looked at first, so that the live
state never runs ahead of the frames. -/
def extend (r : Recording) : Move Unit :=
  if r.program.halted r.live then
    (.error .runEnded, r)
  else
    match r.archive.hasRoom? r.shown.size with
    | none => (.error .countOverflow, r)
    | some false => (.error (.budgetExhausted r.archive.used r.archive.budget), r)
    | some true =>
      let live := r.program.step r.live
      match r.archive.add? (.capture r.program live) with
      | some (.ok archive) => (.ok (), { r with live, archive })
      | some (.error overflow) =>
        (.error (.budgetExhausted overflow.used overflow.budget), { r with live })
      | none => (.error .countOverflow, { r with live })

/-- Show the next frame, recording it first if need be. -/
def forward (r : Recording) : Move Unit :=
  let next := r.position + 1
  if next < r.length then
    r.goTo next
  else
    match r.extend with
    | (.ok (), r) => r.goTo next
    | (.error fault, r) => (.error fault, r)

/-- Show the frame before. -/
def back (r : Recording) : Move Unit :=
  if r.position = 0 then (.error .atStart, r) else r.goTo (r.position - 1)

/-- Show the first frame. -/
def rewind (r : Recording) : Move Unit := r.goTo 0

/-! ## Repeated moves -/

/-- The moves forward that the frames ahead and the instruction limit allow. -/
def headroom (r : Recording) : Nat :=
  (r.length - 1 - r.position) + r.program.allowance r.live

/-- Go forward until `stop` holds, at most `n` times; count the moves on top of `count`. -/
def forwardUntil (stop : Recording → Bool) : Nat → Nat → Recording → Move Nat
  | 0, count, r => (.ok count, r)
  | n + 1, count, r =>
    if stop r then
      (.ok count, r)
    else
      match r.forward with
      | (.ok (), r) => forwardUntil stop n (count + 1) r
      | (.error fault, r) => (.error fault, r)

/-- Go forward until the run stops, and count the moves. -/
def toEnd (r : Recording) : Move Nat := forwardUntil atEnd r.headroom 0 r

/-- Go forward at least once, and on until a breakpoint is next or the run stops; count the moves. -/
def toBreakpoint (r : Recording) : Move Nat :=
  match r.forward with
  | (.ok (), r) => forwardUntil (fun r => r.atEnd || r.atBreakpoint) r.headroom 1 r
  | (.error fault, r) => (.error fault, r)

/-- Go forward a number of times or until a move fails, and count the moves that succeeded. -/
def forwardTimes : Nat → Recording → Nat × Recording
  | 0, r => (0, r)
  | n + 1, r =>
    match r.forward with
    | (.ok (), r) =>
      let (count, r) := forwardTimes n r
      (count + 1, r)
    | (.error _, r) => (0, r)

end Recording

end TapeDebugger
