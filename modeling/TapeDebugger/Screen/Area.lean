-- SUMMARY: Rectangles of a screen and their division into parts.

/-!
# Areas

A rectangle is given by its upper left corner and its size. Dividing one never loses or doubles a
row or a column.

Areas, glyphs and drawings stand for the library that the viewer is drawn with. They say what it makes
of the borders, styles and lines of text that the panes hand to it.
-/

namespace TapeDebugger

structure Area where
  x : Nat
  y : Nat
  width : Nat
  height : Nat
  deriving Repr, DecidableEq

namespace Area

/-- All of a screen. -/
def ofSize (width height : Nat) : Area := { x := 0, y := 0, width, height }

def contains (a : Area) (x y : Nat) : Bool :=
  a.x ≤ x && x < a.x + a.width && a.y ≤ y && y < a.y + a.height

/-- What a border one cell wide leaves inside. -/
def inner (a : Area) : Area :=
  { x := a.x + 1, y := a.y + 1, width := a.width - 2, height := a.height - 2 }

/-- The upper edge between the corners. -/
def titleBar (a : Area) : Area :=
  { x := a.x + 1, y := a.y, width := a.width - 2, height := min 1 a.height }

/-- The area without its first column. -/
def indent (a : Area) : Area := { a with x := a.x + 1, width := a.width - 1 }

/-- The part of an area that is also in another one. -/
def intersect (a b : Area) : Area :=
  let x := max a.x b.x
  let y := max a.y b.y
  { x, y
    width := min (a.x + a.width) (b.x + b.width) - x
    height := min (a.y + a.height) (b.y + b.height) - y }

/-- A percentage of a length, rounded to the nearest whole, halves upwards. -/
def share (percent length : Nat) : Nat := (length * percent + 50) / 100

/-- The left part of the given width, and the rest. -/
def splitColumn (a : Area) (width : Nat) : Area × Area :=
  ({ a with width }, { a with x := a.x + width, width := a.width - width })

/-- The upper part of the given height, and the rest. -/
def splitRow (a : Area) (height : Nat) : Area × Area :=
  ({ a with height }, { a with y := a.y + height, height := a.height - height })

/-- An area that is all on the screen stays as it is. -/
theorem intersect_ofSize {a : Area} {width height : Nat} (hw : a.x + a.width ≤ width)
    (hh : a.y + a.height ≤ height) : a.intersect (ofSize width height) = a := by
  cases a
  simp only [intersect, ofSize, mk.injEq] at hw hh ⊢
  omega

end Area

end TapeDebugger
