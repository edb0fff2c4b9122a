-- SUMMARY: The colours of the viewer by what they stand for, and the styles made of them.
import TapeDebugger.Screen.Glyph

/-!
# Palette
-/

namespace TapeDebugger.Palette

def text : Colour := .rgb 0xcd 0xd6 0xf4
def accent : Colour := .rgb 0x89 0xb4 0xfa
def highlight : Colour := .rgb 0xfa 0xb3 0x87
def muted : Colour := .rgb 0x6c 0x70 0x86
def success : Colour := .rgb 0xa6 0xe3 0xa1
def alert : Colour := .rgb 0xf3 0x8b 0xa8
def motion : Colour := .rgb 0x94 0xe2 0xd5
def transfer : Colour := .rgb 0xfa 0xb3 0x87
def arithmetic : Colour := .rgb 0xf5 0xc2 0xe7
def focusedEdge : Colour := .rgb 0xf9 0xe2 0xaf
def edge : Colour := .rgb 0x6c 0x70 0x86
def band : Colour := .rgb 0x32 0x32 0x46
def pointer : Colour := .rgb 0xf9 0xe2 0xaf
def zero : Colour := .rgb 0x58 0x5b 0x70

/-- The one cell or byte that a pointer is on. -/
def pointed : Style := { fg := some .black, bg := some pointer, bold := true }

/-- The border of a pane. -/
def border (focused : Bool) : Style :=
  if focused then { fg := some focusedEdge, bold := true } else { fg := some edge }

theorem bg_border (focused : Bool) : (border focused).bg = none := by
  cases focused <;> rfl

/-- Black on a coloured ground. -/
def badge (ground : Colour) : Style := { fg := some .black, bg := some ground, bold := true }

end TapeDebugger.Palette
