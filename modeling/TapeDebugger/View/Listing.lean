-- SUMMARY: The listing of the source, with the byte to be executed next and the line that holds it.
import TapeDebugger.Program.Instruction
import TapeDebugger.Program.Line
import TapeDebugger.Screen.Drawing
import TapeDebugger.Screen.Palette
import TapeDebugger.View.Printable
import TapeDebugger.View.Window
import TapeDebugger.Word

/-!
# The listing

Each byte of the source is one character of the listing. The byte to be executed next is marked, and
its line stays at a chosen row of the window for as long as the source has lines enough around it.
-/

namespace TapeDebugger.Listing

/-! ## Scrolling -/

structure Scroll where
  /-- The first line shown. -/
  offset : Nat := 0
  /-- The row that the current line is kept at; chosen when it is first drawn. -/
  row : Option Nat := none
  deriving Repr, DecidableEq

/-- The row for the current line in a window: the one chosen before, else the middle one, and in any
case one of the window. -/
def Scroll.targetRow (s : Scroll) (visible : Nat) : Nat :=
  min (s.row.getD (visible / 2)) (visible - 1)

/-- Bring the current one of `total` lines to its row, as far as the ends of the source allow. -/
def Scroll.settle (s : Scroll) (current total visible : Nat) : Scroll :=
  let row := s.targetRow visible
  { offset := Window.clamp total visible (current - row), row := some row }

/-- Have the current line one row lower. -/
def Scroll.lower (s : Scroll) : Scroll := { s with row := s.row.map Word.succ }

/-- Have the current line one row higher. -/
def Scroll.raise (s : Scroll) : Scroll := { s with row := s.row.map (· - 1) }

/-! ## Text -/

/-- The style of a byte by what it does. -/
def byteStyle (zeroClears : Bool) (byte : UInt8) : Style :=
  match Instruction.ofByte? zeroClears byte with
  | some .moveRight | some .moveLeft => { fg := some Palette.motion }
  | some .increment | some .decrement | some .clear => { fg := some Palette.arithmetic }
  | some .input | some .output => { fg := some Palette.transfer, bold := true }
  | some .loopOpen | some .loopClose => { fg := some Palette.accent }
  | none =>
    if byte = breakpoint then { fg := some Palette.alert, bold := true }
    else { fg := some Palette.muted }

/-- The character of a byte; control characters leave a gap. -/
def byteChar (byte : UInt8) : Char := if isControl byte then ' ' else printable byte

/-- A line number, in a field of four. -/
def gutter (line : Nat) (current : Bool) : Text :=
  Text.ofString (String.ofList (padLeft 4 ' ' (Nat.toDigits 10 (line + 1))) ++ " ")
    (if current then { fg := some Palette.highlight, bold := true } else { fg := some Palette.muted })

/-- The bytes of a line that is not the current one. -/
def plainBytes (zeroClears : Bool) (bytes : List UInt8) : Text :=
  bytes.map fun byte => { char := byteChar byte, style := byteStyle zeroClears byte }

/-- The bytes of the current line, with the one at column `pointer` marked. -/
def currentBytes (zeroClears : Bool) (pointer : Option Nat) (bytes : List UInt8) : Text :=
  bytes.mapIdx fun column byte =>
    { char := byteChar byte
      style :=
        if pointer = some column then Palette.pointed
        else (byteStyle zeroClears byte).patch { bg := some Palette.band } }

/-- The mark behind the last byte of a run that has reached the end of its source. -/
def endMark : Text := Text.ofString " ■" { fg := some Palette.alert, bold := true }

/-- What a listing shows. -/
structure Content where
  source : Array UInt8
  ip : Nat
  zeroClears : Bool

namespace Content

def starts (c : Content) : List Nat := lineStarts c.source

/-- Whether the instruction pointer is at the end of the source or beyond. -/
def past (c : Content) : Bool := c.source.size ≤ c.ip

/-- The place of the instruction pointer, or of the end of the source when it is beyond. -/
def place (c : Content) : Place := .locate c.starts (min c.ip c.source.size)

/-- One line of the listing, given the table of lines and the current place. -/
def line (c : Content) (starts : List Nat) (place : Place) (line : Nat) : Text :=
  let bytes := lineBytes c.source starts line
  if line = place.line then
    if c.past then
      gutter line true ++ currentBytes c.zeroClears none bytes ++ endMark
    else
      gutter line true ++ currentBytes c.zeroClears (some place.column) bytes
  else
    gutter line false ++ plainBytes c.zeroClears bytes

/-- The lines in a window. -/
def window (c : Content) (visible offset : Nat) : List Text :=
  let starts := c.starts
  let place := c.place
  (Window.slice (List.range starts.length) visible offset).map (c.line starts place)

def settle (c : Content) (height : Nat) (s : Scroll) : Scroll :=
  s.settle c.place.line c.starts.length (Window.rows height)

def draw (c : Content) (area : Area) (focused : Bool) (offset : Nat) : Drawing :=
  [.frame area (Palette.border focused) (Text.ofString " Source Code "),
   .lines area.inner (c.window (Window.rows area.height) offset)]

end Content

end TapeDebugger.Listing
