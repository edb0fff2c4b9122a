-- SUMMARY: The dump of the tape: eight cells to a row, as hexadecimal bytes and as characters.
import TapeDebugger.Machine.Tape
import TapeDebugger.Screen.Drawing
import TapeDebugger.Screen.Palette
import TapeDebugger.View.Printable
import TapeDebugger.View.Window
import TapeDebugger.Word

/-!
# The dump

Every row begins with the address of its first cell. The cell under the head is marked both as a
number and as a character. While it follows, the window moves no further than it must to show the
row of the head.
-/

namespace TapeDebugger.Dump

/-- The number of cells in a full row. -/
def cellsPerRow : Nat := 8

/-- The number of rows for so many cells; the last one may be short. -/
def rowCount (cells : Nat) : Nat := (cells + cellsPerRow - 1) / cellsPerRow

/-! ## Scrolling -/

structure Scroll where
  /-- The first row shown. -/
  offset : Nat := 0
  /-- Whether the row of the head is kept in view. -/
  follow : Bool := true
  deriving Repr, DecidableEq

/-- The nearest offset at which the window shows a row. -/
def reveal (row visible offset : Nat) : Nat :=
  if row < offset then row
  else if offset + visible ≤ row then row + 1 - visible
  else offset

/-- Follow the row of the head if asked to, and stay within the `total` rows. -/
def Scroll.settle (s : Scroll) (row total visible : Nat) : Scroll :=
  { s with
    offset := Window.clamp total visible (if s.follow then reveal row visible s.offset else s.offset) }

/-- One row further up, no longer following. -/
def Scroll.raise (s : Scroll) : Scroll := { offset := s.offset - 1, follow := false }

/-- One row further down, no longer following. -/
def Scroll.lower (s : Scroll) : Scroll := { offset := Word.succ s.offset, follow := false }

/-! ## Text -/

/-- The style of a cell as a number. -/
def numberStyle (pointed : Bool) (value : UInt8) : Style :=
  if pointed then Palette.pointed
  else if value = 0 then { fg := some Palette.zero }
  else { fg := some Palette.text }

/-- The style of a cell as a character. -/
def charStyle (pointed : Bool) : Style :=
  if pointed then Palette.pointed else { fg := some Palette.transfer }

def number (pointed : Bool) (value : UInt8) : Text :=
  Text.ofString (hexByte value) (numberStyle pointed value) ++ Text.ofString " "

def character (pointed : Bool) (value : UInt8) : Glyph :=
  { char := printable value, style := charStyle pointed }

/-- The cells of a row, each with whether the head is on it. -/
def rowCells (tape : Tape) (row : Nat) : List (Bool × UInt8) :=
  let start := row * cellsPerRow
  (tape.cells.extract start (start + cellsPerRow)).toList.mapIdx fun i value =>
    (start + i == tape.head, value)

/-- One row: its address, the cells as numbers, gaps up to a full row, the cells as characters. -/
def row (tape : Tape) (row : Nat) : Text :=
  let cells := rowCells tape row
  Text.ofString (hexAddress (row * cellsPerRow)) { fg := some Palette.muted }
    ++ Text.ofString " │ "
    ++ cells.flatMap (fun (pointed, value) => number pointed value)
    ++ (List.replicate (cellsPerRow - cells.length) (Text.ofString "   ")).flatten
    ++ Text.ofString "│ "
    ++ cells.map fun (pointed, value) => character pointed value

/-- The rows in a window. -/
def window (tape : Tape) (visible offset : Nat) : List Text :=
  (Window.slice (List.range (rowCount tape.size)) visible offset).map (row tape)

def title (tape : Tape) : String := s!" Tape  dp={tape.head} cell={tape.cell.toNat} "

def settle (tape : Tape) (height : Nat) (s : Scroll) : Scroll :=
  s.settle (tape.head / cellsPerRow) (rowCount tape.size) (Window.rows height)

def draw (tape : Tape) (area : Area) (focused : Bool) (offset : Nat) : Drawing :=
  [.frame area (Palette.border focused) (Text.ofString (title tape)),
   .lines area.inner (window tape (Window.rows area.height) offset)]

end TapeDebugger.Dump
