-- SUMMARY: What a screen shows at a cell, as far as the panes rely on it, and that rendering a drawing keeps to that.
import TapeDebugger.Screen.Drawing

/-!
# Cells

What is shown of the panes is read off the cells of a screen. It does not matter how the screen is made, as
long as every layer does to the cells below it what `Drawing.Draws` says. A pane is a frame and lines of text in
it: the frame sets no background and stays outside of the text, so the background and the characters of a cell
inside are those of the text alone (`background?_pane`, `exists_cell?_lines`).

`Drawing.render` draws in this way (`draws_render`).
-/

namespace TapeDebugger

theorem Area.contains_iff {a : Area} {x y : Nat} :
    a.contains x y ↔ (a.x ≤ x ∧ x < a.x + a.width) ∧ a.y ≤ y ∧ y < a.y + a.height := by
  simp only [contains, Bool.and_eq_true, decide_eq_true_iff, and_assoc]

-- ---------------------------------------------------------------------------
-- Glyphs
-- ---------------------------------------------------------------------------

namespace Glyph

variable {below above : Glyph}

theorem bg_put_of_below (h : below.style.bg = none) : (below.put above).style.bg = above.style.bg := by
  simp only [put, Style.patch, h, Option.orElse_eq_orElse, Option.orElse_eq_or, Option.or_none]

theorem bg_put_of_above (h : above.style.bg = none) : (below.put above).style.bg = below.style.bg := by
  simp only [put, Style.patch, h, Option.orElse_eq_orElse, Option.orElse_eq_or, Option.none_or]

end Glyph

-- ---------------------------------------------------------------------------
-- Texts
-- ---------------------------------------------------------------------------

namespace Text

variable {style : Style} {chars : List Char} {text front back : Text} {g : Glyph} {column : Nat}
  {colour : Colour}

/-- Characters without a line feed among them have a cell each. -/
theorem ofChars_eq_map (h : '\n' ∉ chars) :
    ofChars style chars = chars.map fun char => { char, style } := by
  induction chars with
  | nil => rfl
  | cons char rest ih =>
    obtain ⟨hchar, hrest⟩ := not_or.1 (mt List.mem_cons.2 h)
    rw [List.map_cons, ← ih hrest]
    cases rest with
    | nil => simp [ofChars, Ne.symm hchar]
    | cons next rest =>
      have hnext : next ≠ '\n' := fun heq => hrest (heq ▸ List.mem_cons_self)
      simp [ofChars, Ne.symm hchar, hnext]

theorem style_of_mem_ofChars (h : g ∈ ofChars style chars) : g.style = style := by
  fun_induction ofChars style chars with
  | case1 => cases h
  | case2 rest ih =>
    rcases List.mem_cons.1 h with rfl | hmem
    · rfl
    · exact ih hmem
  | case3 rest ih => exact ih h
  | case4 char rest _ _ ih =>
    rcases List.mem_cons.1 h with rfl | hmem
    · rfl
    · exact ih hmem

/-- The background that a text sets at a column. -/
def background? (text : Text) (column : Nat) : Option Colour := text[column]?.bind (·.style.bg)

theorem background?_ne (h : ∀ g ∈ text, g.style.bg ≠ some colour) (column : Nat) :
    background? text column ≠ some colour := by
  rw [background?]
  cases hcell : text[column]? with
  | none => exact (Option.some_ne_none colour).symm
  | some g => exact h g (List.mem_of_getElem? hcell)

/-- Of a text in two parts, each sets the backgrounds of its own columns. -/
theorem background?_append (front back : Text) (column : Nat) :
    background? (front ++ back) column =
      if column < front.length then background? front column
      else background? back (column - front.length) := by
  rw [background?, List.getElem?_append]
  split <;> rfl

/-- Where the front of a text does not set a colour, the whole sets it where the back does. -/
theorem background?_append_iff (h : ∀ g ∈ front, g.style.bg ≠ some colour) :
    background? (front ++ back) column = some colour ↔
      front.length ≤ column ∧ background? back (column - front.length) = some colour := by
  rw [background?_append]
  split
  · rename_i hcolumn
    exact iff_of_false (background?_ne h column) fun hset => Nat.not_le_of_lt hcolumn hset.1
  · rename_i hcolumn
    exact (and_iff_right (Nat.le_of_not_lt hcolumn)).symm

end Text

-- ---------------------------------------------------------------------------
-- Screens
-- ---------------------------------------------------------------------------

namespace Screen

/-- The glyph at a column and a row of a screen. -/
def cell? (screen : Screen) (x y : Nat) : Option Glyph := screen[y]?.bind fun row => row[x]?

/-- The background at a column and a row of a screen, if one is set. -/
def background? (screen : Screen) (x y : Nat) : Option Colour := (cell? screen x y).bind (·.style.bg)

end Screen

-- ---------------------------------------------------------------------------
-- What the panes rely on
-- ---------------------------------------------------------------------------

namespace Drawing

open Screen (cell? background?)

/-- What is relied on of a way to render drawings: the size of a screen, that nothing is on it at first, and
what one more layer does to the cells that are there. Of a border it is only said that it leaves the
backgrounds, and the cells inside of it. -/
structure Draws (render : Drawing → Nat → Nat → Screen) : Prop where
  /-- A screen has the cells within its width and its height. -/
  size : ∀ d width height x y,
    (∃ cell, cell? (render d width height) x y = some cell) ↔ x < width ∧ y < height
  /-- Where nothing is drawn, the screen is blank. -/
  blank : ∀ {width height x y cell}, cell? (render [] width height) x y = some cell → cell = .blank
  /-- Laying a style over an area leaves the characters. -/
  fill : ∀ {d a style width height x y},
    (cell? (render (d ++ [.fill a style]) width height) x y).map Glyph.chars =
      (cell? (render d width height) x y).map Glyph.chars
  /-- A border without a background leaves the backgrounds. -/
  border : ∀ {d a style title width height x y},
    style.bg = none → (∀ g ∈ title, g.style.bg = none) →
    background? (render (d ++ [.frame a style title]) width height) x y =
      background? (render d width height) x y
  /-- A border leaves what is inside of it, if all of it is on the screen. -/
  inner : ∀ {d} {a : Area} {style title width height x y},
    a.x + a.width ≤ width → a.y + a.height ≤ height → a.inner.contains x y →
    cell? (render (d ++ [.frame a style title]) width height) x y = cell? (render d width height) x y
  /-- Lines of text put their glyphs into the cells of their area. -/
  text : ∀ {d} {a : Area} {texts width height x y g},
    a.contains x y → Layer.glyphAt? texts (x - a.x) (y - a.y) = some g →
    cell? (render (d ++ [.lines a texts]) width height) x y =
      (cell? (render d width height) x y).map (Glyph.put · g)
  /-- Where lines of text have no glyph, and outside of their area, they leave what is there. -/
  beside : ∀ {d} {a : Area} {texts width height x y},
    (a.contains x y → Layer.glyphAt? texts (x - a.x) (y - a.y) = none) →
    cell? (render (d ++ [.lines a texts]) width height) x y = cell? (render d width height) x y

namespace Draws

variable {render : Drawing → Nat → Nat → Screen} {d : Drawing} {a inside : Area} {style : Style}
  {title : Text} {texts : List Text} {width height x y : Nat}

/-- Lines of text on cells without a background set the backgrounds of their glyphs. -/
theorem background?_lines (hdraws : Draws render) (h : background? (render d width height) x y = none) :
    background? (render (d ++ [.lines inside texts]) width height) x y =
      if (x < width ∧ y < height) ∧ inside.contains x y then
        (Layer.glyphAt? texts (x - inside.x) (y - inside.y)).bind (·.style.bg)
      else none := by
  by_cases hcell : (x < width ∧ y < height) ∧ inside.contains x y
  · rw [if_pos hcell]
    cases hglyph : Layer.glyphAt? texts (x - inside.x) (y - inside.y) with
    | none =>
      rw [background?, hdraws.beside fun _ => hglyph]
      exact h
    | some g =>
      obtain ⟨below, hbelow⟩ := (hdraws.size d width height x y).2 hcell.1
      rw [background?, hbelow] at h
      rw [background?, hdraws.text hcell.2 hglyph, hbelow, Option.map_some]
      exact Glyph.bg_put_of_below h
  · rw [if_neg hcell]
    by_cases hscreen : x < width ∧ y < height
    · rw [background?, hdraws.beside fun hcontains => absurd ⟨hscreen, hcontains⟩ hcell]
      exact h
    · have hnone := mt (hdraws.size (d ++ [.lines inside texts]) width height x y).1 hscreen
      rw [background?, Option.eq_none_iff_forall_ne_some.2 fun cell hshown => hnone ⟨cell, hshown⟩]
      rfl

/-- The backgrounds of a pane are those of its text. -/
theorem background?_pane (hdraws : Draws render) (hstyle : style.bg = none)
    (htitle : ∀ g ∈ title, g.style.bg = none) :
    background? (render [.frame a style title, .lines inside texts] width height) x y =
      if (x < width ∧ y < height) ∧ inside.contains x y then
        (Layer.glyphAt? texts (x - inside.x) (y - inside.y)).bind (·.style.bg)
      else none := by
  have hblank : background? (render [] width height) x y = none := by
    rw [background?]
    cases hcell : cell? (render [] width height) x y with
    | none => rfl
    | some cell => rw [hdraws.blank hcell]; rfl
  exact hdraws.background?_lines (d := [.frame a style title]) ((hdraws.border hstyle htitle).trans hblank)

/-- Where a drawing ends with a text, the cell has the characters of the text. -/
theorem exists_cell?_lines {g : Glyph} (hdraws : Draws render) (hx : x < width) (hy : y < height)
    (hcontains : inside.contains x y)
    (hglyph : Layer.glyphAt? texts (x - inside.x) (y - inside.y) = some g) :
    ∃ cell, cell? (render (d ++ [.lines inside texts]) width height) x y = some cell ∧
      cell.chars = g.chars := by
  obtain ⟨below, hbelow⟩ := (hdraws.size d width height x y).2 ⟨hx, hy⟩
  exact ⟨below.put g, by rw [hdraws.text hcontains hglyph, hbelow, Option.map_some], rfl⟩

/-- The same at a column and a row counted from the corner of the text. -/
theorem exists_cell?_lines_at {g : Glyph} {column row : Nat} (hdraws : Draws render)
    (hcolumn : column < inside.width) (hrow : row < inside.height) (hx : inside.x + column < width)
    (hy : inside.y + row < height) (hglyph : Layer.glyphAt? texts column row = some g) :
    ∃ cell, cell? (render (d ++ [.lines inside texts]) width height) (inside.x + column)
      (inside.y + row) = some cell ∧ cell.chars = g.chars := by
  have hcontains : inside.contains (inside.x + column) (inside.y + row) := by
    rw [Area.contains_iff]
    omega
  refine hdraws.exists_cell?_lines hx hy hcontains ?_
  rw [Nat.add_sub_cancel_left, Nat.add_sub_cancel_left]
  exact hglyph

end Draws

end Drawing

-- ---------------------------------------------------------------------------
-- Layers
-- ---------------------------------------------------------------------------

namespace Layer

variable {a : Area} {style : Style} {title : Text} {texts : List Text} {x y : Nat} {below g : Glyph}

/-- Laying a style over a cell leaves its characters. -/
theorem chars_apply_fill : ((fill a style).apply x y below).chars = below.chars := by
  simp only [apply, glyph?]
  split <;> rfl

/-- A frame sets no background if neither its style nor its title does. -/
theorem bg_apply_frame (hstyle : style.bg = none) (htitle : ∀ g ∈ title, g.style.bg = none) :
    ((frame a style title).apply x y below).style.bg = below.style.bg := by
  have hedge (char : Char) : (below.put { char, style }).style.bg = below.style.bg :=
    Glyph.bg_put_of_above hstyle
  simp only [apply, glyph?]
  split
  · cases borderChar? a x y with
    | none => rfl
    | some char =>
      rw [Option.map_some, Option.getD_some]
      cases htext : titleGlyph? a title x y with
      | none => exact hedge char
      | some g =>
        have hmem : g ∈ title := by
          simp only [titleGlyph?] at htext
          split at htext
          · exact List.mem_of_getElem? htext
          · cases htext
        exact (Glyph.bg_put_of_above (htitle g hmem)).trans (hedge char)
  · rfl

/-- Inside of a border there is none. -/
theorem borderChar?_inner (h : a.inner.contains x y) : borderChar? a x y = none := by
  obtain ⟨⟨hleft, hright⟩, htop, hbottom⟩ := Area.contains_iff.1 h
  simp only [Area.inner] at hleft hright htop hbottom
  have hx : x ≠ a.x ∧ x + 1 ≠ a.x + a.width := by omega
  have hy : y ≠ a.y ∧ y + 1 ≠ a.y + a.height := by omega
  simp only [borderChar?, hx, hy, false_and, if_false]

/-- A frame leaves what is inside of it. -/
theorem apply_frame_inner (h : a.inner.contains x y) : (frame a style title).apply x y below = below := by
  simp only [apply, glyph?, borderChar?_inner h, Option.map_none, Option.getD_none, ite_self]

theorem apply_lines_of_glyph (hcontains : a.contains x y)
    (hglyph : glyphAt? texts (x - a.x) (y - a.y) = some g) :
    (lines a texts).apply x y below = below.put g := by
  simp only [apply, glyph?, area, hcontains, hglyph, if_true, Option.map_some, Option.getD_some]

theorem apply_lines_of_none (h : a.contains x y → glyphAt? texts (x - a.x) (y - a.y) = none) :
    (lines a texts).apply x y below = below := by
  by_cases hcontains : a.contains x y = true
  · simp only [apply, glyph?, area, h hcontains, Option.map_none, Option.getD_none, ite_self]
  · have houtside : ¬ (lines a texts).area.contains x y := hcontains
    exact apply_outside houtside below

end Layer

-- ---------------------------------------------------------------------------
-- Rendering
-- ---------------------------------------------------------------------------

namespace Drawing

open Screen (cell? background?)

variable {width height x y : Nat}

theorem cell?_render (d : Drawing) :
    cell? (d.render width height) x y =
      if x < width ∧ y < height then some ((d.clip (.ofSize width height)).apply x y .blank) else none := by
  split
  · rename_i hcell
    exact d.render_getElem? hcell.1 hcell.2
  · rename_i hcell
    by_cases hy : y < height
    · have hx : ¬ x < width := fun hx => hcell ⟨hx, hy⟩
      simp [cell?, render, hy, hx]
    · simp [cell?, render, hy]

/-- One more layer is applied, as the screen shows it, to the cells of the layers below. -/
theorem cell?_render_concat (d : Drawing) (layer : Layer) :
    cell? (render (d ++ [layer]) width height) x y =
      (cell? (d.render width height) x y).map fun below =>
        (layer.clip (.ofSize width height)).apply x y below := by
  rw [cell?_render, cell?_render]
  split
  · rw [clip, List.map_append, apply_append, Option.map_some]
    rfl
  · rfl

theorem draws_render : Draws render where
  size d width height x y := by
    rw [cell?_render]
    split
    · rename_i hcell
      exact iff_of_true ⟨_, rfl⟩ hcell
    · rename_i hcell
      exact iff_of_false (fun ⟨cell, hshown⟩ => Option.some_ne_none cell hshown.symm) hcell
  blank hcell := by
    rw [cell?_render] at hcell
    split at hcell
    · exact (Option.some.inj hcell).symm
    · cases hcell
  fill := by
    intro d a style width height x y
    rw [cell?_render_concat, Option.map_map]
    exact congrArg (Option.map · _) (funext fun below => Layer.chars_apply_fill)
  border hstyle htitle := by
    rw [background?, background?, cell?_render_concat, Option.bind_map]
    exact congrArg (Option.bind _) (funext fun below => Layer.bg_apply_frame hstyle htitle)
  inner hx hy hinner := by
    rw [cell?_render_concat, Layer.clip_eq_self hx hy]
    simp only [Layer.apply_frame_inner hinner, Option.map_id']
  text hcontains hglyph := by
    rw [cell?_render_concat]
    exact congrArg (Option.map · _) (funext fun below => Layer.apply_lines_of_glyph hcontains hglyph)
  beside h := by
    rw [cell?_render_concat]
    exact (congrArg (Option.map · _) (funext fun below => Layer.apply_lines_of_none h)).trans Option.map_id'

end Drawing

end TapeDebugger
