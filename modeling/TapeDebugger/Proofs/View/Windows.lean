-- SUMMARY: Which row each pane keeps in its window, whatever its offset was before.
import TapeDebugger.Proofs.Program.Lines
import TapeDebugger.View.Dump
import TapeDebugger.View.Listing
import TapeDebugger.View.Log

/-!
# Rows in windows

Each pane settles its offset by a rule of its own, and each rule brings a certain row into the window:
the listing the current line, the dump the row of the head while it follows, and the log its last line
once its offset is as large as can be. A clamp afterwards does not lose that row, because it only moves
the window up to where its last row is the last one of all.
-/

namespace TapeDebugger

namespace Window

variable {α : Type} {items : List α} {visible offset row total height : Nat}

/-- A window of so many rows, from an offset on, has a row. -/
def Shows (visible offset row : Nat) : Prop := offset ≤ row ∧ row < offset + visible

instance (visible offset row : Nat) : Decidable (Shows visible offset row) :=
  inferInstanceAs (Decidable (_ ∧ _))

/-- What a window shows of a list at one of its rows is the list's own entry. -/
theorem Shows.getElem?_slice (h : Shows visible offset row) :
    (slice items visible offset)[row - offset]? = items[row]? := by
  obtain ⟨habove, hbelow⟩ := h
  have hrow : row - offset < visible := by omega
  rw [slice, List.getElem?_take_of_lt hrow, List.getElem?_drop, Nat.add_sub_of_le habove]

/-- A window over numbered rows shows consecutive numbers. -/
theorem slice_range (total visible offset : Nat) :
    slice (List.range total) visible offset = List.range' offset (min visible (total - offset)) := by
  rw [slice, List.range_eq_range', List.drop_range', Nat.zero_add, Nat.mul_one]
  obtain hle | hlt := Nat.le_total (total - offset) visible
  · rw [List.take_range'_of_length_le hle, Nat.min_eq_right hle]
  · rw [List.take_range'_of_length_ge hlt, Nat.min_eq_left hlt]

/-- The texts in a window are those of its rows, one below the other. -/
theorem glyphAt?_map_slice (text : Nat → Text) (total visible offset column row : Nat) :
    Layer.glyphAt? ((slice (List.range total) visible offset).map text) column row =
      if row < visible ∧ offset + row < total then (text (offset + row))[column]? else none := by
  rw [Layer.glyphAt?, List.getElem?_map, slice_range]
  split
  · rename_i hrow
    rw [List.getElem?_range' (by omega), Nat.one_mul]
    rfl
  · rename_i hrow
    rw [List.getElem?_eq_none (by rw [List.length_range']; omega)]
    rfl

/-- Clamping keeps a row of the list in the window. -/
theorem Shows.clamp (h : Shows visible offset row) (hrow : row < total) :
    Shows visible (clamp total visible offset) row := by
  obtain ⟨habove, hbelow⟩ := h
  simp only [Shows, Window.clamp, lastOffset]
  omega

end Window

open Window (Shows)

-- ---------------------------------------------------------------------------
-- Listing
-- ---------------------------------------------------------------------------

namespace Listing

theorem Scroll.targetRow_lt (s : Scroll) {visible : Nat} (hvisible : 0 < visible) :
    s.targetRow visible < visible := by
  rw [targetRow]
  omega

/-- The current line is in the window of the listing, at whatever row it is to be kept. -/
theorem Scroll.shows_settle (s : Scroll) {current total visible : Nat} (hvisible : 0 < visible)
    (hcurrent : current < total) : Shows visible (s.settle current total visible).offset current := by
  have htarget := s.targetRow_lt hvisible
  have hshows : Shows visible (current - s.targetRow visible) current := by
    simp only [Shows]
    omega
  exact hshows.clamp hcurrent

namespace Content

variable {c : Content} {visible offset line : Nat}

theorem line_place_lt_length (c : Content) : c.place.line < c.starts.length :=
  line_locate_lt_length c.source _

/-- The line of the instruction pointer, or of the end of the source, is the number of newlines before
it. -/
theorem line_place (c : Content) : c.place.line = (c.source.toList.take c.ip).count newline := by
  rw [place, starts, line_locate]
  obtain hwithin | hpast := Nat.le_total c.ip c.source.size
  · rw [Nat.min_eq_left hwithin]
  · rw [Nat.min_eq_right hpast, ← Array.length_toList, List.take_length,
      List.take_of_length_le (by simpa using hpast)]

theorem shows_settle (c : Content) (height : Nat) (s : Scroll) :
    Shows (Window.rows height) (c.settle height s).offset c.place.line :=
  s.shows_settle (Window.rows_pos height) c.line_place_lt_length

/-- A window shows the text of each line that is in it. -/
theorem getElem?_window (h : Shows visible offset line) (hline : line < c.starts.length) :
    (c.window visible offset)[line - offset]? = some (c.line c.starts c.place line) := by
  rw [window, List.getElem?_map, h.getElem?_slice, List.getElem?_range hline, Option.map_some]

end Content

end Listing

-- ---------------------------------------------------------------------------
-- Dump
-- ---------------------------------------------------------------------------

namespace Dump

variable {tape : Tape} {visible offset index : Nat}

theorem shows_reveal (offset : Nat) (hvisible : 0 < visible) :
    Shows visible (reveal index visible offset) index := by
  simp only [Shows, reveal]
  split
  · omega
  · split <;> omega

/-- A window that shows the row already is not moved. -/
theorem reveal_of_shows (h : Shows visible offset index) : reveal index visible offset = offset := by
  obtain ⟨habove, hbelow⟩ := h
  rw [reveal, if_neg (Nat.not_lt_of_le habove), if_neg (Nat.not_le_of_lt hbelow)]

/-- While the dump follows, the row of the head is in its window. -/
theorem Scroll.shows_settle {s : Scroll} {total : Nat} (hfollow : s.follow = true)
    (hvisible : 0 < visible) (hindex : index < total) :
    Shows visible (s.settle index total visible).offset index := by
  simp only [settle, hfollow, if_true]
  exact (shows_reveal s.offset hvisible).clamp hindex

/-- The rows of the dump are those that begin within the tape. -/
theorem lt_rowCount_iff {cells : Nat} : index < rowCount cells ↔ index * cellsPerRow < cells := by
  simp only [cellsPerRow, rowCount]
  omega

/-- Every cell is on a row of the dump. -/
theorem div_lt_rowCount {cell cells : Nat} (h : cell < cells) :
    cell / cellsPerRow < rowCount cells :=
  lt_rowCount_iff.2 (Nat.lt_of_le_of_lt (Nat.div_mul_le_self cell cellsPerRow) h)

theorem shows_settle {s : Scroll} (hhead : tape.head < tape.size) (hfollow : s.follow = true)
    (height : Nat) :
    Shows (Window.rows height) (settle tape height s).offset (tape.head / cellsPerRow) :=
  Scroll.shows_settle hfollow (Window.rows_pos height) (div_lt_rowCount hhead)

/-- A window shows the text of each row that is in it. -/
theorem getElem?_window (h : Shows visible offset index) (hindex : index < rowCount tape.size) :
    (window tape visible offset)[index - offset]? = some (row tape index) := by
  rw [window, List.getElem?_map, h.getElem?_slice, List.getElem?_range hindex, Option.map_some]

end Dump

-- ---------------------------------------------------------------------------
-- Log
-- ---------------------------------------------------------------------------

namespace Log

variable {output : Array UInt8} {height : Nat}

/-- An output has at most one line more than it has bytes. -/
theorem length_lines_le (output : Array UInt8) : (lines output).length ≤ output.size + 1 := by
  have hsegments : ((segments output.toList).map display).length ≤ output.size + 1 := by
    rw [List.length_map, length_segments]
    exact Nat.succ_le_succ (count_newline_le_size output)
  rw [lines]
  split
  · exact Nat.le_trans (List.length_dropLast ▸ Nat.sub_le _ 1) hsegments
  · exact hsegments

theorem settle_of_ne_nil (h : lines output ≠ []) (height offset : Nat) :
    settle output height offset =
      Window.clamp (lines output).length (Window.rows height) offset := by
  rw [settle]
  split
  · rename_i hlength
    exact absurd (List.length_eq_zero_iff.1 hlength) h
  · rfl

/-- From the largest offset there is, the log settles on its last lines. -/
theorem settle_last (h : lines output ≠ []) (hsize : output.size ≤ Word.last) (height : Nat) :
    settle output height Word.last = (lines output).length - Window.rows height := by
  have hlines := length_lines_le output
  have hrows := Window.rows_pos height
  rw [settle_of_ne_nil h, Window.clamp, Window.lastOffset]
  exact Nat.min_eq_right (by omega)

/-- A window that reaches to the last line shows it last. -/
theorem getLast?_window {lines : List (List Char)} {visible offset : Nat}
    (hbefore : offset < lines.length) (hreaches : lines.length ≤ offset + visible) :
    (window lines visible offset).getLast? =
      lines.getLast?.map fun chars => chars.map fun char => { char } := by
  have hall : (lines.drop offset).length ≤ visible := by
    rw [List.length_drop]
    omega
  rw [window, Window.slice, List.take_of_length_le hall, List.getLast?_map, List.getLast?_drop,
    if_neg (Nat.not_le.2 hbefore)]

end Log

end TapeDebugger
