-- SUMMARY: The viewer of a recording: its state, what each key does, automatic playing, and its screen.
import TapeDebugger.Recording
import TapeDebugger.View.Dump
import TapeDebugger.View.Listing
import TapeDebugger.View.Log
import TapeDebugger.View.StatusBar

/-!
# The viewer

A viewer shows one frame of a recording in three panes over a status bar. Keys move through the
recording, the focus through the panes; while playing, every tick goes one frame forward.

Drawing has two parts. `Viewer.settle` fits the panes' offsets to their content and size, and
`Viewer.draw` shows the result and changes nothing.
-/

namespace TapeDebugger

/-- The pane that the keys for scrolling act on. -/
inductive Focus where
  | listing
  | log
  | dump
  deriving Repr, DecidableEq

def Focus.next : Focus → Focus
  | .listing => .log
  | .log => .dump
  | .dump => .listing

inductive Key where
  | char (c : Char)
  | left
  | right
  | up
  | down
  | tab
  | enter
  | backspace
  | escape
  /-- Any key that the viewer has no use for. -/
  | other
  deriving Repr, DecidableEq

structure Viewer where
  recording : Recording
  focus : Focus := .listing
  listing : Listing.Scroll := {}
  dump : Dump.Scroll := {}
  /-- The first line of the log on show. -/
  log : Nat := 0
  quit : Bool := false
  message : String := "Ready!"
  playing : Bool := false

namespace Viewer

/-! ## Moves -/

/-- Let the panes follow the frame on show: the dump to the head, the log to its end. -/
def follow (v : Viewer) : Viewer :=
  { v with dump := { v.dump with follow := true }, log := Word.last }

/-- What is said of a move that may be refused. -/
def moveMessage (success failure : String) : Except Fault Unit → String
  | .ok () => success
  | .error (.moveRefused detail) => s!"{failure}: {detail}"
  | .error fault => s!"Error: {fault.message}"

/-- Stop playing, move, say how it went, and follow. -/
def navigate (v : Viewer) (move : Recording → Recording.Move α)
    (message : Recording → Except Fault α → String) : Viewer :=
  let (outcome, recording) := move v.recording
  follow { v with recording, playing := false, message := message recording outcome }

def stepForward (v : Viewer) : Viewer :=
  v.navigate Recording.forward fun _ => moveMessage "Stepped forward" "Cannot step forward"

def stepBack (v : Viewer) : Viewer :=
  v.navigate Recording.back fun _ => moveMessage "Stepped backward" "Cannot step backward"

def rewind (v : Viewer) : Viewer :=
  v.navigate Recording.rewind fun _ => moveMessage "Jumped to start" "Cannot rewind"

def stepTimes (v : Viewer) (n : Nat) : Viewer :=
  let (count, recording) := Recording.forwardTimes n v.recording
  follow { v with recording, playing := false, message := s!"Stepped forward {count} step(s)" }

def runToEnd (v : Viewer) : Viewer :=
  v.navigate Recording.toEnd fun _ outcome =>
    match outcome with
    | .ok _ => "Jumped to end"
    | .error fault => s!"Stopped early: {fault.message}"

def resume (v : Viewer) : Viewer :=
  v.navigate Recording.toBreakpoint fun recording outcome =>
    match outcome with
    | .ok count =>
      if recording.atBreakpoint then s!"Breakpoint hit after {count} step(s)"
      else s!"Ran {count} step(s) to the end"
    | .error fault => s!"Cannot continue: {fault.message}"

/-! ## Playing -/

/-- Start playing or pause. -/
def togglePlaying (v : Viewer) : Viewer :=
  if v.playing then { v with playing := false, message := "Paused" }
  else { v with playing := true, message := "Playing..." }

/-- Go one frame forward; playing stops on a breakpoint and where there is no way forward. -/
def tick (v : Viewer) : Viewer :=
  match v.recording.forward with
  | (.ok (), recording) =>
    if recording.atBreakpoint then
      follow { v with recording, playing := false, message := "Paused at breakpoint" }
    else
      follow { v with recording, message := "Playing..." }
  | (.error fault, recording) =>
    follow
      { v with recording, playing := false, message := s!"Playback stopped: {fault.message}" }

/-- What happens between two screens while no key is pressed. -/
def advance (v : Viewer) : Viewer :=
  if v.playing && !v.quit then v.tick else v

/-! ## Keys -/

def scrollUp (v : Viewer) : Viewer :=
  match v.focus with
  | .listing => { v with listing := v.listing.lower }
  | .dump => { v with dump := v.dump.raise }
  | .log => { v with log := v.log - 1 }

def scrollDown (v : Viewer) : Viewer :=
  match v.focus with
  | .listing => { v with listing := v.listing.raise }
  | .dump => { v with dump := v.dump.lower }
  | .log => { v with log := Word.succ v.log }

/-- What a character key does: a digit other than zero steps so many times. -/
def pressChar (v : Viewer) (c : Char) : Viewer :=
  if c = 'q' ∨ c = 'Q' then { v with quit := true }
  else if c = 'c' ∨ c = 'C' then v.resume
  else if c = ' ' then v.togglePlaying
  else if '1' ≤ c ∧ c ≤ '9' then v.stepTimes (c.toNat - '0'.toNat)
  else v

def press (v : Viewer) : Key → Viewer
  | .char c => v.pressChar c
  | .left => v.stepBack
  | .right => v.stepForward
  | .up => v.scrollUp
  | .down => v.scrollDown
  | .tab => { v with focus := v.focus.next }
  | .enter => v.runToEnd
  | .backspace => v.rewind
  | .escape => { v with quit := true }
  | .other => v

/-! ## The screen -/

/-- The areas of the panes on a screen. -/
structure Layout where
  listing : Area
  log : Area
  dump : Area
  status : Area
  deriving Repr, DecidableEq

/-- The status bar takes the last row. Above it the listing stands over the log, and the dump beside
both. -/
def Layout.ofSize (width height : Nat) : Layout :=
  let (panes, status) := (Area.ofSize width height).splitRow (height - 1)
  let (left, dump) := panes.splitColumn (Area.share 55 panes.width)
  let (listing, log) := left.splitRow (Area.share 70 left.height)
  { listing, log, dump, status }

def listingContent (v : Viewer) : Listing.Content where
  source := v.recording.program.source
  ip := v.recording.shown.ip
  zeroClears := v.recording.program.settings.zeroClears

def statusBar (v : Viewer) : StatusBar where
  message := v.message
  position := v.recording.position
  total := if v.recording.complete then some v.recording.length else none
  executed := v.recording.shown.executed
  halt := v.recording.shown.halt
  atBreakpoint := v.recording.atBreakpoint
  playing := v.playing

/-- Fit the offsets of the panes to a screen. -/
def settle (v : Viewer) (width height : Nat) : Viewer :=
  let layout := Layout.ofSize width height
  { v with
    listing := v.listingContent.settle layout.listing.height v.listing
    log := Log.settle v.recording.output layout.log.height v.log
    dump := Dump.settle v.recording.shown.tape layout.dump.height v.dump }

def draw (v : Viewer) (width height : Nat) : Drawing :=
  let layout := Layout.ofSize width height
  v.listingContent.draw layout.listing (v.focus = .listing) v.listing.offset
    ++ Log.draw v.recording.output layout.log (v.focus = .log) v.log
    ++ Dump.draw v.recording.shown.tape layout.dump (v.focus = .dump) v.dump.offset
    ++ v.statusBar.draw layout.status

/-- Draw the viewer on an empty screen. -/
def render (v : Viewer) (width height : Nat) : Viewer × Screen :=
  let v := v.settle width height
  (v, (v.draw width height).render width height)

/-- One round while no key is pressed: what a screen of the given size settles, and then what playing
goes on to. -/
def round (v : Viewer) (width height : Nat) : Viewer := (v.settle width height).advance

end Viewer

end TapeDebugger
