-- SUMMARY: Characters with colours, and how a style laid over another one combines with it.

/-!
# Glyphs

A style sets a foreground, a background, both or neither, and may add boldness. What it does not set
shows through from below; at the very bottom that is the terminal's own default.

As areas and drawings do, glyphs stand for the library that the viewer is drawn with: this is how it
lays styles over each other, and how many cells it gives to a character.
-/

namespace TapeDebugger

inductive Colour where
  | black
  | rgb (red green blue : UInt8)
  deriving Repr, DecidableEq

structure Style where
  fg : Option Colour := none
  bg : Option Colour := none
  bold : Bool := false
  deriving Repr, DecidableEq

/-- Lay a style over another one. -/
def Style.patch (below above : Style) : Style where
  fg := above.fg <|> below.fg
  bg := above.bg <|> below.bg
  bold := below.bold || above.bold

/-- One cell of a screen, or what a text puts into one. -/
structure Glyph where
  char : Char
  /-- What shares the cell with the character: the line feed of a line end does. -/
  tail : List Char := []
  style : Style := {}
  deriving Repr, DecidableEq

namespace Glyph

/-- A cell of an empty screen. -/
def blank : Glyph := { char := ' ' }

/-- The characters of a cell. -/
def chars (g : Glyph) : List Char := g.char :: g.tail

/-- Put a glyph into a cell: the characters are replaced, the style is laid over. -/
def put (below above : Glyph) : Glyph := { above with style := below.style.patch above.style }

def restyle (g : Glyph) (style : Style) : Glyph := { g with style := g.style.patch style }

end Glyph

/-- A line of glyphs. -/
abbrev Text := List Glyph

/-- Characters in one style. A carriage return and its line feed share a cell; a line feed alone takes
none; every other character has a cell of its own. -/
def Text.ofChars (style : Style) : List Char → Text
  | [] => []
  | '\r' :: '\n' :: rest => { char := '\r', tail := ['\n'], style } :: ofChars style rest
  | '\n' :: rest => ofChars style rest
  | char :: rest => { char, style } :: ofChars style rest

/-- A text in one style. -/
def Text.ofString (s : String) (style : Style := {}) : Text := Text.ofChars style s.toList

/-- The characters of a line, without its styles. -/
def Text.toString (text : Text) : String := String.ofList (text.flatMap Glyph.chars)

end TapeDebugger
