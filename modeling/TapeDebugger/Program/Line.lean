-- SUMMARY: The lines of a source: where each begins, which bytes it holds, and the place of a position.

/-!
# Lines

A line ends before each newline byte, so a source has one line more than it has newlines, and its
last line may be empty. Lines and columns count from zero.
-/

namespace TapeDebugger

/-- The byte that ends a line. -/
def newline : UInt8 := 0x0a

/-- The positions at which the lines of a source begin, in order. -/
def lineStarts (source : Array UInt8) : List Nat :=
  0 :: source.toList.zipIdx.filterMap fun (byte, position) =>
    if byte = newline then some (position + 1) else none

theorem head_lineStarts (source : Array UInt8) : (lineStarts source).head? = some 0 := rfl

/-- A line and a column in it. -/
structure Place where
  line : Nat
  column : Nat
  deriving Repr, DecidableEq

/-- The place of a position, among lines that begin at `starts`: it is on the last line that does not
begin after it. -/
def Place.locate (starts : List Nat) (position : Nat) : Place :=
  let line := starts.countP (· ≤ position) - 1
  { line, column := position - starts.getD line 0 }

/-- Where a line ends: before the newline that the next line follows, or with the source. -/
def lineStop (source : Array UInt8) (starts : List Nat) (line : Nat) : Nat :=
  match starts[line + 1]? with
  | some next => next - 1
  | none => source.size

/-- The bytes of a line, without its newline. -/
def lineBytes (source : Array UInt8) (starts : List Nat) (line : Nat) : List UInt8 :=
  (source.extract (starts.getD line 0) (lineStop source starts line)).toList

end TapeDebugger
