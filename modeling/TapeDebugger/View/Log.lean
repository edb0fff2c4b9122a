-- SUMMARY: The log of the output, line by line.
import TapeDebugger.Program.Line
import TapeDebugger.Screen.Drawing
import TapeDebugger.Screen.Palette
import TapeDebugger.View.Printable
import TapeDebugger.View.Window

/-!
# The log

The output is shown in lines. Carriage returns are not shown, and a last line without anything to
show is left out, so an output that ends with a newline does not end with an empty row.
-/

namespace TapeDebugger.Log

/-- The byte that the log does not show. -/
def carriageReturn : UInt8 := 0x0d

/-- The bytes between newlines; a text without newlines is one segment. -/
def segments (bytes : List UInt8) : List (List UInt8) :=
  bytes.foldr
    (fun byte segments =>
      if byte = newline then
        [] :: segments
      else
        match segments with
        | [] => [[byte]]
        | first :: rest => (byte :: first) :: rest)
    [[]]

theorem segments_ne_nil (bytes : List UInt8) : segments bytes ≠ [] := by
  cases bytes with
  | nil => simp [segments]
  | cons byte rest =>
    simp only [segments, List.foldr_cons]
    split
    · simp
    · split <;> simp

/-- Every newline begins one more segment. -/
theorem length_segments (bytes : List UInt8) :
    (segments bytes).length = bytes.count newline + 1 := by
  induction bytes with
  | nil => rfl
  | cons byte rest ih =>
    have hne := segments_ne_nil rest
    simp only [segments, List.foldr_cons] at ih hne ⊢
    by_cases hb : byte = newline
    · rw [if_pos hb, List.length_cons, ih, hb, List.count_cons_self]
    · rw [if_neg hb, List.count_cons_of_ne hb, ← ih]
      split
      · contradiction
      · simp_all

/-- The characters that a segment is shown as. -/
def display (segment : List UInt8) : List Char :=
  (segment.filter (· ≠ carriageReturn)).map printable

/-- The lines of an output. -/
def lines (output : Array UInt8) : List (List Char) :=
  let all := (segments output.toList).map display
  if all.getLast? = some [] then all.dropLast else all

/-- The offset stays within the lines; without lines there is nothing to scroll. -/
def settle (output : Array UInt8) (height offset : Nat) : Nat :=
  match (lines output).length with
  | 0 => offset
  | total => Window.clamp total (Window.rows height) offset

def title (output : Array UInt8) : String := s!" Terminal Output ({output.size} bytes) "

/-- The lines in a window. -/
def window (lines : List (List Char)) (visible offset : Nat) : List Text :=
  (Window.slice lines visible offset).map fun chars => chars.map fun char => { char }

/-- Without lines, a note says so; otherwise the lines of the window, one column from the border. -/
def draw (output : Array UInt8) (area : Area) (focused : Bool) (offset : Nat) : Drawing :=
  let frame := .frame area (Palette.border focused) (Text.ofString (title output))
  match lines output with
  | [] =>
    [frame, .fill area.inner { fg := some Palette.muted },
     .lines area.inner [Text.ofString "(no output)"]]
  | lines =>
    let page := area.inner.indent
    let texts := window lines (Window.rows area.height) offset
    [frame, .fill { page with height := min page.height texts.length } { fg := some Palette.text },
     .lines page texts]

end TapeDebugger.Log
