-- SUMMARY: The dump is a faithful window on the tape: where it settles, which cells it shows, and what it marks.
import Mathlib.Data.Nat.Dist
import TapeDebugger.Proofs.Screen.Reading
import TapeDebugger.Proofs.View.Checked
import TapeDebugger.Proofs.View.DumpRow

/-!
# The dump as a window

A dump settles in two steps. While it follows, it goes to the nearest offset at which the row of the head is in
the window, and then back to where its last row is the last one of the tape. An offset may be left from another
tape or another height, or be as large as a word can be, so both steps may have something to do.

Settled, the pane is read back from the screen (`shows_cells`): the digits of its rows are the cells of the
window, one after the other, and the ground of the pointer is at the two digits and at the character of the cell
under the head, and nowhere else.
-/

namespace TapeDebugger

open Window (Shows)

-- ---------------------------------------------------------------------------
-- Offsets
-- ---------------------------------------------------------------------------

/-- Of all offsets at which a window shows a row, the one closest to another offset. -/
structure Window.Nearest (visible row offset nearest : Nat) : Prop where
  shows : Shows visible nearest row
  closer : ∀ other, Shows visible other row → other ≠ nearest →
    Nat.dist offset nearest < Nat.dist offset other

namespace Dump

theorem nearest_reveal {visible : Nat} (hvisible : 0 < visible) (index offset : Nat) :
    Window.Nearest visible index offset (reveal index visible offset) where
  shows := shows_reveal offset hvisible
  closer other hother := by
    obtain ⟨habove, hbelow⟩ := hother
    simp only [reveal, Nat.dist]
    split
    · omega
    · split <;> omega

-- ---------------------------------------------------------------------------
-- Cells
-- ---------------------------------------------------------------------------

/-- Consecutive chunks of a list are a part of it. -/
theorem flatMap_chunks {α : Type} (items : List α) (length first count : Nat) :
    ((List.range' first count).flatMap fun i => (items.drop (i * length)).take length) =
      (items.drop (first * length)).take (count * length) := by
  induction count generalizing first with
  | zero => simp
  | succ count ih =>
    have hparts : (count + 1) * length = length + count * length := by rw [Nat.succ_mul, Nat.add_comm]
    rw [List.range'_succ, List.flatMap_cons, ih, hparts, List.take_add, List.drop_drop, Nat.succ_mul]

variable {tape : Tape} {a : Area} {focused : Bool} {visible offset width height : Nat}
  {render : Drawing → Nat → Nat → Screen}

/-- The rows in a window have the cells from its first row up to its last one, or up to the end of the tape. -/
theorem flatMap_rowCells (tape : Tape) (visible offset : Nat) :
    ((Window.slice (List.range (rowCount tape.size)) visible offset).flatMap fun index =>
        (rowCells tape index).map Prod.snd) =
      (tape.cells.extract (8 * offset) (min tape.size (8 * (offset + visible)))).toList := by
  simp only [Window.slice_range, map_snd_rowCells, flatMap_chunks, Array.toList_extract,
    List.extract_eq_take_drop, Nat.mul_comm 8 offset, cellsPerRow, rowCount]
  rw [List.take_eq_take_iff, List.length_drop, Array.length_toList, Tape.size]
  omega

/-- What is read off a page of rows that are not cut is read off the rows. -/
theorem flatMap_readRow_page {lines : List (List Char)} (hheight : lines.length ≤ height)
    (hwidth : ∀ line ∈ lines, line.length ≤ width) :
    (Screen.page height width lines).flatMap readRow =
      lines.flatMap fun line => readRow (line ++ List.replicate (width - line.length) ' ') := by
  have hrows : (lines.map fun line => readRow ((line.take width).rightpad width ' ')) =
      lines.map fun line => readRow (line ++ List.replicate (width - line.length) ' ') :=
    List.map_congr_left fun line hline => by
      rw [List.take_of_length_le (hwidth line hline), List.rightpad]
  have hblanks : (List.replicate (height - lines.length) ([] : List Char)).flatMap
      (fun line => readRow ((line.take width).rightpad width ' ')) = [] := by
    simp [List.flatMap_replicate, List.rightpad, readRow_of_blank]
  rw [Screen.page, List.take_of_length_le hheight, List.rightpad, List.flatMap_map,
    List.flatMap_append, hblanks, List.append_nil, List.flatMap_def, hrows, ← List.flatMap_def]

-- ---------------------------------------------------------------------------
-- The pane
-- ---------------------------------------------------------------------------

theorem plain_window : ∀ text ∈ window tape visible offset, ∀ g ∈ text, g.tail = [] := by
  intro text htext g hg
  obtain ⟨index, -, rfl⟩ := List.mem_map.1 htext
  exact tail_of_mem_row hg

/-- A window is marked where the cell under the head is, if its row is one of the window's. -/
theorem bg_glyphAt?_window_iff {column row : Nat} :
    (Layer.glyphAt? (window tape visible offset) column row).bind (·.style.bg) = some Palette.pointer ↔
      (tape.head < tape.size ∧ Shows visible offset (tape.head / cellsPerRow)) ∧
        row = tape.head / cellsPerRow - offset ∧
        (column = numberColumn tape.head ∨ column = numberColumn tape.head + 1 ∨
          column = characterColumn tape.head) := by
  rw [window, Window.glyphAt?_map_slice]
  split
  · rename_i hrow
    have hmark := background?_row_iff tape (offset + row) column
    rw [Text.background?] at hmark
    rw [hmark]
    constructor
    · rintro ⟨hhead, hindex, hcolumn⟩
      rw [hindex]
      exact ⟨⟨hhead, Nat.le_add_right offset row, by omega⟩, by omega, hcolumn⟩
    · rintro ⟨⟨hhead, habove, -⟩, rfl, hcolumn⟩
      exact ⟨hhead, (Nat.add_sub_of_le habove).symm, hcolumn⟩
  · rename_i hrow
    refine iff_of_false (Option.some_ne_none _).symm ?_
    rintro ⟨⟨hhead, habove, hbelow⟩, rfl, -⟩
    have hindex := div_lt_rowCount hhead
    exact hrow (by omega)

/-- On the screen, the pane reads as a page of the rows in its window. -/
theorem read_draw (hdraws : Drawing.Draws render) (hx : a.x + a.width ≤ width)
    (hy : a.y + a.height ≤ height) :
    Screen.read (render (draw tape a focused offset) width height) a.inner =
      Screen.page a.inner.height a.inner.width
        ((window tape (Window.rows a.height) offset).map fun text => text.map Glyph.char) :=
  hdraws.read_lines (d := [.frame a _ _]) (fun _ _ hinner => hdraws.blank_frame hx hy hinner) plain_window

/-- A pane with room for its rows reads as the cells of its window. -/
theorem flatMap_readRow_draw (hdraws : Drawing.Draws render) (hx : a.x + a.width ≤ width)
    (hy : a.y + a.height ≤ height) (hheight : 2 < a.height)
    (hfits : ∀ index, Shows (Window.rows a.height) offset index → index < rowCount tape.size →
      rowWidth index ≤ a.width - 2) :
    (Screen.read (render (draw tape a focused offset) width height) a.inner).flatMap readRow =
      (tape.cells.extract (8 * offset)
        (min tape.size (8 * (offset + Window.rows a.height)))).toList := by
  have hlength : ((window tape (Window.rows a.height) offset).map
      fun text => text.map Glyph.char).length ≤ a.inner.height := by
    simp only [window, List.length_map, Window.length_slice, Area.inner, Window.rows]
    omega
  have hwidth : ∀ line ∈ (window tape (Window.rows a.height) offset).map fun text => text.map Glyph.char,
      line.length ≤ a.inner.width := by
    intro line hline
    obtain ⟨text, htext, rfl⟩ := List.mem_map.1 hline
    obtain ⟨index, hindex, rfl⟩ := List.mem_map.1 htext
    rw [Window.slice_range, List.mem_range'_1] at hindex
    rw [List.length_map]
    exact Nat.le_trans (length_row_le tape index) (hfits index ⟨hindex.1, by omega⟩ (by omega))
  rw [read_draw hdraws hx hy, flatMap_readRow_page hlength hwidth, ← flatMap_rowCells, window]
  simp only [List.flatMap_map, readRow_row]

/-- A glyph in a row of the window is on the screen, if it is within the pane. -/
theorem chars_draw {index column : Nat} {g : Glyph} (hdraws : Drawing.Draws render)
    (hx : a.x + a.width ≤ width) (hy : a.y + a.height ≤ height) (hheight : 2 < a.height)
    (hshows : Shows (Window.rows a.height) offset index) (hindex : index < rowCount tape.size)
    (hcolumn : column < a.width - 2) (hglyph : (row tape index)[column]? = some g) :
    (Screen.cell? (render (draw tape a focused offset) width height) (a.x + 1 + column)
      (a.y + 1 + (index - offset))).map Glyph.chars = some g.chars := by
  have hrow : index - offset < a.height - 2 := by
    obtain ⟨habove, hbelow⟩ := hshows
    simp only [Window.rows] at hbelow
    omega
  have hdrawn : Layer.glyphAt? (window tape (Window.rows a.height) offset) column (index - offset) =
      some g := by
    rw [Layer.glyphAt?, getElem?_window hshows hindex, Option.bind_some, hglyph]
  have hplace : a.inner.x + column < width ∧ a.inner.y + (index - offset) < height := by
    simp only [Area.inner]
    omega
  obtain ⟨cell, hcell, hchars⟩ :
      ∃ cell, Screen.cell? (render (draw tape a focused offset) width height) (a.inner.x + column)
        (a.inner.y + (index - offset)) = some cell ∧ cell.chars = g.chars :=
    hdraws.exists_cell?_lines_at (d := [.frame a _ _]) hcolumn hrow hplace.1 hplace.2 hdrawn
  exact hchars ▸ congrArg (Option.map Glyph.chars) hcell

/-- The dump has the ground of the pointer at the cell under the head, as far as it is in the window and in
the pane. -/
theorem background?_draw_eq_pointer_iff {x y : Nat} (hdraws : Drawing.Draws render) :
    Screen.background? (render (draw tape a focused offset) width height) x y = some Palette.pointer ↔
      ((x < width ∧ y < height) ∧ a.inner.contains x y) ∧
        (tape.head < tape.size ∧ Shows (Window.rows a.height) offset (tape.head / cellsPerRow)) ∧
        y = a.y + 1 + (tape.head / cellsPerRow - offset) ∧
        (x = a.x + 1 + numberColumn tape.head ∨ x = a.x + 1 + (numberColumn tape.head + 1) ∨
          x = a.x + 1 + characterColumn tape.head) := by
  have htitle : ∀ g ∈ Text.ofString (title tape), g.style.bg = none :=
    fun g hmem => by rw [Text.style_of_mem_ofChars hmem]
  rw [draw, hdraws.background?_pane (Palette.bg_border focused) htitle]
  split
  · rename_i hcell
    obtain ⟨⟨hleft, -⟩, htop, -⟩ := Area.contains_iff.1 hcell.2
    rw [and_iff_right hcell, bg_glyphAt?_window_iff]
    simp only [Area.inner] at hleft htop ⊢
    refine and_congr_right fun _ => and_congr ?_ ?_ <;> omega
  · rename_i hcell
    exact iff_of_false (Option.some_ne_none _).symm fun h => hcell h.1

/-- A screen shows a window of the tape in an area. -/
structure Displays (tape : Tape) (a : Area) (visible offset : Nat) (screen : Screen) : Prop where
  /-- The digits are those of the cells in the window, one after the other. -/
  cells : (Screen.read screen a.inner).flatMap readRow =
    (tape.cells.extract (8 * offset) (min tape.size (8 * (offset + visible)))).toList
  /-- The two digits of a cell stand for its value. -/
  number : ∀ cell value, tape.cells[cell]? = some value → Shows visible offset (cell / 8) →
    ∃ high low,
      (Screen.cell? screen (a.x + 1 + numberColumn cell) (a.y + 1 + (cell / 8 - offset))).map
        Glyph.chars = some [high] ∧
      (Screen.cell? screen (a.x + 1 + (numberColumn cell + 1)) (a.y + 1 + (cell / 8 - offset))).map
        Glyph.chars = some [low] ∧
      byteOf? high low = some value
  /-- A cell has its character in the same row. -/
  character : ∀ cell value, tape.cells[cell]? = some value → Shows visible offset (cell / 8) →
    (Screen.cell? screen (a.x + 1 + characterColumn cell) (a.y + 1 + (cell / 8 - offset))).map
      Glyph.chars = some [printable value]
  /-- The ground of the pointer is at the digits and at the character of the cell under the head. -/
  marked : ∀ x y, Screen.background? screen x y = some Palette.pointer ↔
    (tape.head < tape.size ∧ Shows visible offset (tape.head / 8)) ∧
      y = a.y + 1 + (tape.head / 8 - offset) ∧
      (x = a.x + 1 + numberColumn tape.head ∨ x = a.x + 1 + (numberColumn tape.head + 1) ∨
        x = a.x + 1 + characterColumn tape.head)

/-- The columns of a cell are within a full row. -/
theorem columns_lt_rowWidth (cell : Nat) :
    numberColumn cell + 1 < rowWidth (cell / cellsPerRow) ∧
      characterColumn cell < rowWidth (cell / cellsPerRow) := by
  have hpart : cell % cellsPerRow < cellsPerRow := Nat.mod_lt _ (by decide)
  simp only [numberColumn, characterColumn, rowWidth, cellsPerRow] at hpart ⊢
  omega

/-- A pane with room for its rows shows its window. -/
theorem displays_draw (hdraws : Drawing.Draws render) (hx : a.x + a.width ≤ width)
    (hy : a.y + a.height ≤ height) (hheight : 2 < a.height)
    (hfits : ∀ index, Shows (Window.rows a.height) offset index → index < rowCount tape.size →
      rowWidth index ≤ a.width - 2) :
    Displays tape a (Window.rows a.height) offset
      (render (draw tape a focused offset) width height) := by
  have hwithin {cell : Nat} (hcell : cell < tape.size)
      (hshows : Shows (Window.rows a.height) offset (cell / cellsPerRow)) :
      numberColumn cell + 1 < a.width - 2 ∧ characterColumn cell < a.width - 2 := by
    have hcolumns := columns_lt_rowWidth cell
    have hwidth := hfits _ hshows (div_lt_rowCount hcell)
    omega
  constructor
  · exact flatMap_readRow_draw hdraws hx hy hheight hfits
  · intro cell value hvalue hshows
    have hcell := (Array.getElem?_eq_some_iff.1 hvalue).1
    have hcolumns := (hwithin hcell hshows).1
    have hrow := div_lt_rowCount hcell
    have hhigh := getElem?_row_number (show 0 < 3 by decide) hvalue
    have hlow := getElem?_row_number (show 1 < 3 by decide) hvalue
    rw [number_eq] at hhigh hlow
    exact ⟨_, _, chars_draw hdraws hx hy hheight hshows hrow (Nat.lt_of_succ_lt hcolumns) hhigh,
      chars_draw hdraws hx hy hheight hshows hrow hcolumns hlow, byteOf?_digits value⟩
  · intro cell value hvalue hshows
    have hcell := (Array.getElem?_eq_some_iff.1 hvalue).1
    exact chars_draw hdraws hx hy hheight hshows (div_lt_rowCount hcell) (hwithin hcell hshows).2
      (getElem?_row_character hvalue)
  · intro x y
    rw [background?_draw_eq_pointer_iff hdraws]
    refine and_iff_right_of_imp ?_
    rintro ⟨⟨hhead, hshows⟩, rfl, hcolumn⟩
    have hcolumns := hwithin hhead hshows
    obtain ⟨habove, hbelow⟩ := hshows
    simp only [Area.contains_iff, Area.inner, Window.rows, cellsPerRow] at habove hbelow ⊢
    omega

/-- The dump is a faithful window on the tape.

Settling it and drawing it go through, for any tape in memory: no sum is larger than a word, and no difference
is of a smaller count and a larger one. The offset is then no further down than where the last row is the last
one of the tape, and whether the dump follows is as before. While it follows, the row of the head is in the
window. The offset stays if that row was in the window already and the offset was not too far down. In any case
it is the nearest one to the old offset at which the window shows the row, or the last one, if that is smaller.

On the screen, and with room for full rows, the digits are those of the cells in the window, one after the
other, and only the cell under the head is marked, at its digits and at its character. -/
theorem shows_cells (tape : Tape) (s : Scroll) (a : Area) (focused : Bool) (width height : Nat)
    (hhead : tape.head < max 1 tape.size) :
    let total := (tape.size + 7) / 8
    let visible := max 1 (a.height - 2)
    let row := tape.head / 8
    let after := settle tape a.height s
    let drawing := draw tape a focused after.offset
    (tape.size + 8 ≤ Word.last → a.height < 65536 →
      settle? tape a.height s = some after ∧ draw? tape a focused after.offset = some drawing) ∧
    (after.offset ≤ total - visible ∧ after.follow = s.follow) ∧
    (s.follow = true →
      (0 < tape.size → after.offset ≤ row ∧ row < after.offset + visible) ∧
      (s.offset ≤ row ∧ row < s.offset + visible → s.offset ≤ total - visible →
        after.offset = s.offset) ∧
      ∃ nearest, Window.Nearest visible row s.offset nearest ∧
        after.offset = min nearest (total - visible)) ∧
    (s.follow = false → after.offset = min s.offset (total - visible)) ∧
    (a.x + a.width ≤ width → a.y + a.height ≤ height → 2 < a.height →
      (∀ index, after.offset ≤ index → index < after.offset + visible → index < total →
        rowWidth index ≤ a.width - 2) →
      Displays tape a visible after.offset (drawing.render width height)) := by
  intro total visible row after drawing
  have hvisible : 0 < visible := Window.rows_pos a.height
  refine ⟨fun hsize hheight => ⟨settle?_eq ?_ s, draw?_eq hsize a focused after.offset⟩,
    ⟨Window.clamp_le total visible _, rfl⟩, fun hfollow => ?_, fun hfollow => ?_, fun hx hy hheight hfits => ?_⟩
  · simp only [Window.rows, cellsPerRow, Word.last, UInt64.size] at hsize ⊢
    omega
  · have hafter : after.offset = min (reveal row visible s.offset) (total - visible) := by
      simp only [after, settle, Scroll.settle, hfollow, if_true]
      rfl
    refine ⟨fun hsize => ?_, fun hshows hlast => ?_, _, nearest_reveal hvisible row s.offset, hafter⟩
    · exact shows_settle (by omega) hfollow a.height
    · rw [hafter, reveal_of_shows hshows, Nat.min_eq_left hlast]
  · simp only [after, settle, Scroll.settle, hfollow, Bool.false_eq_true, if_false]
    rfl
  · exact displays_draw Drawing.draws_render hx hy hheight fun index hshows hindex =>
      hfits index hshows.1 hshows.2 hindex

/-- A tape of 20 cells, with the head on the second one of the last row, is drawn in a pane of two rows, from
the largest offset there is. It settles on the second row and shows a full and a short one. -/
theorem shows_cells_of_short_row :
    let tape : Tape := ⟨#[0, 1, 2, 3, 4, 5, 6, 7, 8, 9, 10, 11, 12, 13, 14, 15, 16, 17, 18, 19], 17⟩
    let scroll : Scroll := { offset := Word.last, follow := true }
    let drawing := draw tape ⟨0, 0, 45, 4⟩ true 1
    let screen := drawing.render 45 4
    tape.head < max 1 tape.size ∧
    settle? tape 4 scroll = some { offset := 1, follow := true } ∧
    draw? tape ⟨0, 0, 45, 4⟩ true 1 = some drawing ∧
    (∃ nearest, Window.Nearest 2 2 Word.last nearest ∧ 1 = min nearest 1) ∧
    (Screen.read screen ⟨1, 1, 43, 2⟩).flatMap readRow = [8, 9, 10, 11, 12, 13, 14, 15, 16, 17, 18, 19] ∧
    ∀ x y, Screen.background? screen x y = some Palette.pointer ↔
      y = 2 ∧ (x = 11 ∨ x = 12 ∨ x = 35) := by
  intro tape scroll drawing screen
  have hhead : tape.head < max 1 tape.size := by decide
  have hsettle : settle tape 4 scroll = { offset := 1, follow := true } := by decide
  obtain ⟨hchecked, -, hfollow, -, hpane⟩ := shows_cells tape scroll ⟨0, 0, 45, 4⟩ true 45 4 hhead
  have hrows : max 1 (4 - 2) = 2 ∧ (tape.size + 7) / 8 = 3 ∧ tape.head / 8 = 2 := by decide
  simp only [hsettle, hrows] at hchecked hfollow hpane
  obtain ⟨hsettle?, hdraw?⟩ := hchecked (by decide) (by decide)
  obtain ⟨-, -, hnearest⟩ := hfollow rfl
  have hwidths : ∀ index < 3, rowWidth index ≤ 45 - 2 := by decide
  obtain ⟨hcells, -, -, hmarked⟩ :=
    hpane (by decide) (by decide) (by decide) fun index _ hbelow _ => hwidths index hbelow
  have hvalues : (tape.cells.extract (8 * 1) (min tape.size (8 * (1 + 2)))).toList =
    [8, 9, 10, 11, 12, 13, 14, 15, 16, 17, 18, 19] := by decide
  have hplace : (tape.head < tape.size ∧ Shows 2 1 2) ∧ numberColumn tape.head = 10 ∧
    characterColumn tape.head = 34 := by decide
  simp only [hvalues] at hcells
  simp only [hrows, hplace, true_and, Nat.zero_add, Nat.reduceAdd, Nat.reduceSub] at hmarked
  exact ⟨hhead, hsettle?, hdraw?, hnearest, hcells, hmarked⟩

end Dump

end TapeDebugger
