-- SUMMARY: The status bar: the step on show, the last message, the keys, and a badge for the situation.
import TapeDebugger.Machine
import TapeDebugger.Screen.Drawing
import TapeDebugger.Screen.Palette
import TapeDebugger.Word

/-!
# The status bar

The left half tells where the viewer is, the right half which keys there are. At most one badge
follows the keys; playing comes before the end of a run, that before a breakpoint, and that before
the start.
-/

namespace TapeDebugger

structure StatusBar where
  message : String
  /-- The position of the frame on show. -/
  position : Nat
  /-- The number of frames, once the whole run is recorded. -/
  total : Option Nat
  executed : Nat
  halt : Option Halt
  atBreakpoint : Bool
  playing : Bool
  deriving Repr, DecidableEq

namespace StatusBar

/-! ## Styles -/

def ground : Style := { bg := some Palette.band }
def separator : Style := { fg := some Palette.muted, bg := some Palette.band }
def label : Style := { fg := some Palette.text, bg := some Palette.band }
def key : Style := { fg := some .black, bg := some Palette.muted }

/-! ## Text -/

/-- The step on show, counted from one, out of the total as far as it is known. -/
def step (b : StatusBar) : String :=
  let total := match b.total with
    | some total => toString total
    | none => "?"
  s!" Step {Word.wrap (b.position + 1)}/{total} "

def left (b : StatusBar) : Text :=
  Text.ofString b.step (Palette.badge Palette.accent)
    ++ Text.ofString " | " separator
    ++ Text.ofString s!"{b.executed} ops" separator
    ++ Text.ofString " | " separator
    ++ Text.ofString s!" {b.message} " label

def keys : Text :=
  Text.ofString " ←/→ " key ++ Text.ofString " step " label
    ++ Text.ofString "│" separator
    ++ Text.ofString " c " key ++ Text.ofString " continue " label
    ++ Text.ofString "│" separator
    ++ Text.ofString " ⎵ " key ++ Text.ofString " play " label
    ++ Text.ofString "│" separator
    ++ Text.ofString " ↵ / ⌫ " key ++ Text.ofString " end/start " label
    ++ Text.ofString "│" separator
    ++ Text.ofString "q" key ++ Text.ofString " quit " label

/-- The badge for the situation, with its colour. -/
def badge? (b : StatusBar) : Option (String × Colour) :=
  if b.playing then
    some ("▶ PLAYING", Palette.highlight)
  else
    match b.halt with
    | some reason => some (s!"END: {reason.message}", Palette.alert)
    | none =>
      if b.atBreakpoint then some ("! BREAK", Palette.alert)
      else if b.position = 0 then some ("START", Palette.success)
      else none

def right (b : StatusBar) : Text :=
  match b.badge? with
  | some (text, colour) =>
    keys ++ Text.ofString "│" separator ++ Text.ofString s!" {text} " (Palette.badge colour)
  | none => keys

def draw (b : StatusBar) (area : Area) : Drawing :=
  let (leftHalf, rightHalf) := area.splitColumn (Area.share 50 area.width)
  [.fill area ground] ++ Drawing.flushLeft leftHalf b.left ++ Drawing.flushRight rightHalf b.right

end StatusBar

end TapeDebugger
