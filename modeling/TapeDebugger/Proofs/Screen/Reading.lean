-- SUMMARY: What can be read off a screen: the lines of a pane, cut at the edges of an area and filled up with blanks.
import TapeDebugger.Proofs.Screen.Cells

/-!
# Reading a screen

`Screen.read` takes the characters of an area off a screen, without a look at the drawing. Where a drawing
ends with some lines of text, and nothing but blanks is below them, an area reads as a page of these lines
(`read_lines`). Inside of a frame there is nothing but blanks (`blank_frame`). Both follow from what the layers
are relied on to do, for any way to render them.
-/

namespace TapeDebugger

namespace Screen

/-- The characters of an area, row by row, as far as the area is on the screen. -/
def read (screen : Screen) (a : Area) : List (List Char) :=
  (List.range a.height).map fun row =>
    (List.range a.width).flatMap fun column =>
      ((cell? screen (a.x + column) (a.y + row)).map Glyph.chars).getD []

/-- Some lines on a page of so many rows and columns. What is too long or too much is cut off, and what is
missing is filled up with blanks. -/
def page (height width : Nat) (lines : List (List Char)) : List (List Char) :=
  ((lines.take height).rightpad height []).map fun line => (line.take width).rightpad width ' '

end Screen

-- ---------------------------------------------------------------------------
-- Pages
-- ---------------------------------------------------------------------------

/-- A list that is cut or filled up to a length, entry by entry. -/
theorem rightpad_take {α : Type} (items : List α) (length : Nat) (filler : α) :
    (items.take length).rightpad length filler = (List.range length).map fun i => items[i]?.getD filler := by
  induction length generalizing items with
  | zero => rfl
  | succ length ih =>
    rw [List.range_succ_eq_map, List.map_cons, List.map_map]
    cases items with
    | nil =>
      have hrest := ih []
      simp only [List.take_nil, List.rightpad, List.nil_append, List.length_nil, Nat.sub_zero] at hrest ⊢
      rw [List.replicate_succ, hrest]
      rfl
    | cons item items =>
      have hrest := ih items
      rw [List.rightpad] at hrest ⊢
      rw [List.take_succ_cons, List.length_cons, Nat.add_sub_add_right, List.cons_append, hrest]
      rfl

/-- The character at a column and a row of some lines, where every glyph has one. -/
theorem Layer.chars_glyphAt? {texts : List Text} {column row : Nat}
    (hplain : ∀ text ∈ texts, ∀ g ∈ text, g.tail = []) :
    ((glyphAt? texts column row).map Glyph.chars).getD [' '] =
      [((texts.map fun text => text.map Glyph.char)[row]?.getD [])[column]?.getD ' '] := by
  rw [List.getElem?_map, glyphAt?]
  cases htext : texts[row]? with
  | none => rfl
  | some text =>
    rw [Option.bind_some, Option.map_some, Option.getD_some, List.getElem?_map]
    cases hglyph : text[column]? with
    | none => rfl
    | some g =>
      have htail := hplain text (List.mem_of_getElem? htext) g (List.mem_of_getElem? hglyph)
      rw [Option.map_some, Option.map_some, Option.getD_some, Option.getD_some, Glyph.chars, htail]

-- ---------------------------------------------------------------------------
-- Panes
-- ---------------------------------------------------------------------------

namespace Drawing.Draws

open Screen (cell?)

variable {render : Drawing → Nat → Nat → Screen} {d : Drawing} {a inside : Area} {style : Style}
  {title : Text} {texts : List Text} {width height x y : Nat}

/-- A frame on the screen leaves the cells inside of it blank. -/
theorem blank_frame (hdraws : Draws render) (hx : a.x + a.width ≤ width) (hy : a.y + a.height ≤ height)
    (hinner : a.inner.contains x y) :
    (cell? (render [.frame a style title] width height) x y).map Glyph.chars = some [' '] := by
  have hscreen : x < width ∧ y < height := by
    have hplace := Area.contains_iff.1 hinner
    simp only [Area.inner] at hplace
    omega
  obtain ⟨cell, hcell⟩ := (hdraws.size [] width height x y).2 hscreen
  have hframe : cell? (render [.frame a style title] width height) x y = some cell :=
    (hdraws.inner (d := []) hx hy hinner).trans hcell
  rw [hframe, hdraws.blank hcell]
  rfl

/-- A cell of some lines of text has the characters of its glyph, or those that are below. -/
theorem chars_lines (hdraws : Draws render) (hcontains : inside.contains x y) {below : List Char}
    (hbelow : (cell? (render d width height) x y).map Glyph.chars = some below) :
    (cell? (render (d ++ [.lines inside texts]) width height) x y).map Glyph.chars =
      some (((Layer.glyphAt? texts (x - inside.x) (y - inside.y)).map Glyph.chars).getD below) := by
  cases hglyph : Layer.glyphAt? texts (x - inside.x) (y - inside.y) with
  | none => rw [hdraws.beside fun _ => hglyph, hbelow]; rfl
  | some g =>
    obtain ⟨cell, hcell, -⟩ := Option.map_eq_some_iff.1 hbelow
    rw [hdraws.text hcontains hglyph, hcell]
    rfl

/-- Lines of text over blanks read as a page of them. -/
theorem read_lines (hdraws : Draws render)
    (hblank : ∀ x y, inside.contains x y →
      (cell? (render d width height) x y).map Glyph.chars = some [' '])
    (hplain : ∀ text ∈ texts, ∀ g ∈ text, g.tail = []) :
    Screen.read (render (d ++ [.lines inside texts]) width height) inside =
      Screen.page inside.height inside.width (texts.map fun text => text.map Glyph.char) := by
  rw [Screen.read, Screen.page, rightpad_take, List.map_map]
  refine List.map_congr_left fun row hrow => ?_
  rw [Function.comp_apply, rightpad_take, List.map_eq_flatMap, List.flatMap_def, List.flatMap_def]
  refine congrArg List.flatten (List.map_congr_left fun column hcolumn => ?_)
  have hinside : inside.contains (inside.x + column) (inside.y + row) := by
    have := List.mem_range.1 hrow
    have := List.mem_range.1 hcolumn
    rw [Area.contains_iff]
    omega
  rw [hdraws.chars_lines hinside (hblank _ _ hinside), Option.getD_some, Nat.add_sub_cancel_left,
    Nat.add_sub_cancel_left, Layer.chars_glyphAt? hplain]

end Drawing.Draws

end TapeDebugger
