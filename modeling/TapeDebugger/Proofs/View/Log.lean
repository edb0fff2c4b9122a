-- SUMMARY: The lines of the log are those of the output, they stay as the output grows, and a pane shows a window of them.
import TapeDebugger.Proofs.Screen.Reading
import TapeDebugger.Proofs.View.Windows

/-!
# The log

An output is the bytes up to its last newline, whose lines are complete, and the bytes behind it, which more
output may continue (`exists_complete`). Both what the lines are and how they grow follow from this. The last
line is left out when nothing of it is to be shown, which is known only after the carriage returns are gone:
then the lines are the complete ones, and nothing of them changes any more.
-/

namespace TapeDebugger.Log

-- ---------------------------------------------------------------------------
-- Segments
-- ---------------------------------------------------------------------------

/-- The bytes behind the last newline. -/
def pending (bytes : List UInt8) : List UInt8 := (bytes.reverse.takeWhile (· ≠ newline)).reverse

theorem segments_eq_splitOn (bytes : List UInt8) : segments bytes = bytes.splitOn newline := by
  induction bytes with
  | nil => rfl
  | cons byte rest ih =>
    have hne := segments_ne_nil rest
    rw [List.splitOn_cons_eq_if_modifyHead, ← ih, segments, List.foldr_cons, ← segments]
    cases hrest : segments rest with
    | nil => exact absurd hrest hne
    | cons first others =>
      simp only [beq_iff_eq, List.modifyHead_cons]

theorem newline_notMem_pending (bytes : List UInt8) : newline ∉ pending bytes := by
  intro hmem
  have hne := List.all_eq_true.1 List.all_takeWhile newline (List.mem_reverse.1 hmem)
  exact absurd rfl (of_decide_eq_true hne)

/-- Either no line is complete yet, or the pending bytes stand behind a newline. -/
theorem eq_pending_or_exists_front (bytes : List UInt8) :
    bytes = pending bytes ∨ ∃ front, bytes = front ++ newline :: pending bytes := by
  have hsplit := @List.takeWhile_append_dropWhile _ (· ≠ newline) bytes.reverse
  have hbytes : bytes = (bytes.reverse.dropWhile (· ≠ newline)).reverse ++ pending bytes := by
    rw [pending, ← List.reverse_append, hsplit, List.reverse_reverse]
  have hbefore := List.head?_dropWhile_not (· ≠ newline) bytes.reverse
  generalize bytes.reverse.dropWhile (· ≠ newline) = before at hbytes hbefore
  cases before with
  | nil => exact .inl hbytes
  | cons byte before =>
    have hbyte : byte = newline := by simpa using hbefore
    refine .inr ⟨before.reverse, ?_⟩
    simpa [hbyte] using hbytes

/-- The segments of the complete lines stay, whatever follows. -/
theorem exists_complete (bytes : List UInt8) :
    ∃ complete, ∀ more, segments (bytes ++ more) = complete ++ segments (pending bytes ++ more) := by
  rcases eq_pending_or_exists_front bytes with hpending | ⟨front, hfront⟩
  · exact ⟨[], fun more => by rw [← hpending, List.nil_append]⟩
  · refine ⟨segments front, fun more => ?_⟩
    generalize pending bytes = behind at hfront ⊢
    subst hfront
    simp only [segments_eq_splitOn, List.append_assoc, List.cons_append, List.splitOn_append_cons_self]

/-- Bytes without a newline are continued by the first segment of what follows. -/
theorem exists_segments_append {bytes : List UInt8} (h : newline ∉ bytes) (more : List UInt8) :
    ∃ first rest, segments (bytes ++ more) = (bytes ++ first) :: rest := by
  by_cases hmem : newline ∈ more
  · obtain ⟨first, rest, rfl, hfirst⟩ := List.eq_append_cons_of_mem hmem
    have hline : newline ∉ bytes ++ first := fun hmem => (List.mem_append.1 hmem).elim h hfirst
    refine ⟨first, segments rest, ?_⟩
    rw [segments_eq_splitOn, segments_eq_splitOn, ← List.append_assoc,
      List.splitOn_append_cons_self_of_not_mem hline]
  · have hline : newline ∉ bytes ++ more := fun hmem' => (List.mem_append.1 hmem').elim h hmem
    exact ⟨more, [], by rw [segments_eq_splitOn, List.splitOn_eq_singleton hline]⟩

theorem segments_pending (bytes : List UInt8) : segments (pending bytes) = [pending bytes] := by
  rw [segments_eq_splitOn, List.splitOn_eq_singleton (newline_notMem_pending bytes)]

-- ---------------------------------------------------------------------------
-- Lines
-- ---------------------------------------------------------------------------

/-- A byte is shown as itself if it is printable, and as a point otherwise. -/
theorem toNat_printable (byte : UInt8) :
    (printable byte).toNat =
      if 0x20 ≤ byte.toNat ∧ byte.toNat < 0x7f then byte.toNat else '.'.toNat := by
  have hrange : 0x20 ≤ byte ∧ byte ≤ 0x7e ↔ 0x20 ≤ byte.toNat ∧ byte.toNat < 0x7f := by
    rw [UInt8.le_iff_toNat_le, UInt8.le_iff_toNat_le]
    exact and_congr_right fun _ => Nat.lt_succ_iff.symm
  by_cases h : 0x20 ≤ byte.toNat ∧ byte.toNat < 0x7f
  · have hvalid : byte.toNat.isValidChar := .inl (by omega)
    rw [printable, if_pos (hrange.2 h), if_pos h, Char.ofNat, dif_pos hvalid]
    rfl
  · rw [printable, if_neg (mt hrange.1 h), if_neg h]

/-- Nothing of a segment is shown if it consists of carriage returns. -/
theorem display_eq_nil_iff (segment : List UInt8) :
    display segment = [] ↔ segment.any (· ≠ carriageReturn) = false := by
  simp [display, List.filter_eq_nil_iff]

theorem display_append (front back : List UInt8) :
    display (front ++ back) = display front ++ display back := by
  simp only [display, List.filter_append, List.map_append]

/-- Lines without the last one, if that is empty. -/
def withoutBlankEnd (all : List (List Char)) : List (List Char) :=
  if all.getLast? = some [] then all.dropLast else all

theorem lines_eq (output : Array UInt8) :
    lines output = withoutBlankEnd ((segments output.toList).map display) := rfl

theorem withoutBlankEnd_append (front : List (List Char)) {back : List (List Char)} (h : back ≠ []) :
    withoutBlankEnd (front ++ back) = front ++ withoutBlankEnd back := by
  obtain ⟨last, hlast⟩ := Option.ne_none_iff_exists'.1 (mt List.getLast?_eq_none_iff.1 h)
  simp only [withoutBlankEnd, List.getLast?_append, hlast, Option.some_or]
  split
  · exact List.dropLast_append_of_ne_nil h
  · rfl

/-- A first line that is not empty stays the first one. -/
theorem exists_withoutBlankEnd_cons {line : List Char} (h : line ≠ []) (rest : List (List Char)) :
    ∃ others, withoutBlankEnd (line :: rest) = line :: others := by
  cases rest with
  | nil =>
    refine ⟨[], if_neg fun hblank => ?_⟩
    exact h (Option.some.inj hblank)
  | cons next rest =>
    exact ⟨withoutBlankEnd (next :: rest), withoutBlankEnd_append [line] (List.cons_ne_nil next rest)⟩

theorem withoutBlankEnd_prefix (all : List (List Char)) : withoutBlankEnd all <+: all := by
  unfold withoutBlankEnd
  split
  · exact List.dropLast_prefix all
  · exact List.prefix_rfl

theorem withoutBlankEnd_singleton (line : List Char) :
    withoutBlankEnd [line] = if line = [] then [] else [line] := by
  by_cases h : line = [] <;> simp [withoutBlankEnd, h]

/-- The lines of an output are the complete ones and the pending one, unless nothing of that is shown. With
more output the pending one is continued. -/
theorem exists_lines (output : Array UInt8) :
    ∃ complete,
      complete.length = output.toList.count newline ∧
      lines output = complete ++ withoutBlankEnd [display (pending output.toList)] ∧
      ∀ more, ∃ first rest,
        lines (output ++ more) =
          complete ++ withoutBlankEnd ((display (pending output.toList) ++ first) :: rest) := by
  obtain ⟨complete, hcomplete⟩ := exists_complete output.toList
  have hnow : segments output.toList = complete ++ [pending output.toList] := by
    simpa [segments_pending] using hcomplete []
  refine ⟨complete.map display, ?_, ?_, fun more => ?_⟩
  · have hlength := length_segments output.toList
    rw [hnow, List.length_append, List.length_singleton] at hlength
    rw [List.length_map]
    exact Nat.succ.inj hlength
  · rw [lines_eq, hnow, List.map_append]
    exact withoutBlankEnd_append _ (List.cons_ne_nil _ _)
  · obtain ⟨first, rest, hrest⟩ :=
      exists_segments_append (newline_notMem_pending output.toList) more.toList
    refine ⟨display first, rest.map display, ?_⟩
    rw [lines_eq, Array.toList_append, hcomplete, hrest, List.map_append, List.map_cons, display_append]
    exact withoutBlankEnd_append _ (List.cons_ne_nil _ _)

/-- There is a line for every newline, and one for what is pending if anything of that is shown. -/
theorem length_lines (output : Array UInt8) :
    (lines output).length =
      output.toList.count newline +
        if (output.toList.reverse.takeWhile (· ≠ newline)).any (· ≠ carriageReturn) then 1 else 0 := by
  obtain ⟨complete, hlength, hlines, -⟩ := exists_lines output
  have hblank := display_eq_nil_iff (pending output.toList)
  rw [pending, List.any_reverse, ← pending] at hblank
  rw [hlines, List.length_append, hlength, withoutBlankEnd_singleton]
  cases hany : (output.toList.reverse.takeWhile (· ≠ newline)).any (· ≠ carriageReturn) with
  | false => rw [if_pos (hblank.2 hany)]; rfl
  | true => rw [if_neg (by rw [hblank, hany]; decide)]; rfl

/-- Each line shows its segment of the output. -/
theorem getElem?_lines {output : Array UInt8} {i : Nat} (h : i < (lines output).length) :
    (lines output)[i]? = (output.toList.splitOn newline)[i]?.map display := by
  obtain ⟨dropped, hdropped⟩ := withoutBlankEnd_prefix ((segments output.toList).map display)
  rw [← List.getElem?_map, ← segments_eq_splitOn, ← hdropped, ← lines_eq, List.getElem?_append_left h]

-- ---------------------------------------------------------------------------
-- Growth
-- ---------------------------------------------------------------------------

/-- Lines that have become others by writing on: all but the last one are the same, and the last one may have
been continued. -/
structure Continues (before after : List (List Char)) : Prop where
  kept : ∀ i, i + 1 < before.length → after[i]? = before[i]?
  last : ∀ line, before.getLast? = some line →
    ∃ entry, after[before.length - 1]? = some entry ∧ line <+: entry

theorem continues_append (before more : List (List Char)) : Continues before (before ++ more) where
  kept i hi := List.getElem?_append_left (Nat.lt_of_succ_lt hi)
  last line hline := by
    rw [List.getLast?_eq_getElem?] at hline
    have hlt := (List.getElem?_eq_some_iff.1 hline).1
    exact ⟨line, (List.getElem?_append_left hlt).trans hline, List.prefix_rfl⟩

theorem continues_concat (before : List (List Char)) (line more : List Char) (others : List (List Char)) :
    Continues (before ++ [line]) (before ++ (line ++ more) :: others) where
  kept i hi := by
    rw [List.length_append, List.length_singleton, Nat.add_lt_add_iff_right] at hi
    rw [List.getElem?_append_left hi, List.getElem?_append_left hi]
  last entry hentry := by
    rw [List.getLast?_concat] at hentry
    obtain rfl := Option.some.inj hentry
    exact ⟨line ++ more, by simp, List.prefix_append line more⟩

/-- More output continues the lines. -/
theorem continues_lines (output more : Array UInt8) :
    Continues (lines output) (lines (output ++ more)) := by
  obtain ⟨complete, -, hlines, hmore⟩ := exists_lines output
  obtain ⟨first, rest, hgrown⟩ := hmore more
  rw [hlines, hgrown, withoutBlankEnd_singleton]
  by_cases hblank : display (pending output.toList) = []
  · rw [if_pos hblank, List.append_nil]
    exact continues_append complete _
  · obtain ⟨others, hothers⟩ :=
      exists_withoutBlankEnd_cons (mt (List.append_eq_nil_iff.1 · |>.1) hblank : _ ++ first ≠ []) rest
    rw [if_neg hblank, hothers]
    exact continues_concat complete _ first others

-- ---------------------------------------------------------------------------
-- The pane
-- ---------------------------------------------------------------------------

variable {output : Array UInt8} {a : Area} {focused : Bool} {offset width height row column : Nat}
  {render : Drawing → Nat → Nat → Screen}

/-- The text of a window of the log. -/
theorem map_char_window (lines : List (List Char)) (visible offset : Nat) :
    (window lines visible offset).map (fun text => text.map Glyph.char) =
      Window.slice lines visible offset := by
  simp [window, Function.comp_def]

theorem plain_window {lines : List (List Char)} {visible offset : Nat} :
    ∀ text ∈ window lines visible offset, ∀ g ∈ text, g.tail = [] := by
  intro text htext g hg
  obtain ⟨chars, -, rfl⟩ := List.mem_map.1 htext
  obtain ⟨char, -, rfl⟩ := List.mem_map.1 hg
  rfl

/-- With lines to show, the log is a frame, a style for the rows that are used, and the lines. -/
theorem exists_draw_eq (h : lines output ≠ []) (a : Area) (focused : Bool) (offset : Nat) :
    ∃ style rows ground title,
      draw output a focused offset =
        [.frame a style title, .fill { a.inner.indent with height := rows } ground] ++
          [.lines a.inner.indent (window (lines output) (Window.rows a.height) offset)] := by
  unfold draw
  split
  · rename_i hnone
    exact absurd hnone h
  · exact ⟨_, _, _, _, rfl⟩

/-- On the screen, the page of the log reads as its window. -/
theorem read_draw (hdraws : Drawing.Draws render) (h : lines output ≠ []) (hx : a.x + a.width ≤ width)
    (hy : a.y + a.height ≤ height) :
    Screen.read (render (draw output a focused offset) width height) a.inner.indent =
      Screen.page a.inner.indent.height a.inner.indent.width
        (Window.slice (lines output) (Window.rows a.height) offset) := by
  obtain ⟨style, rows, ground, title, hdraw⟩ := exists_draw_eq h a focused offset
  rw [hdraw, ← map_char_window]
  have hinner {x y : Nat} (hinside : a.inner.indent.contains x y) : a.inner.contains x y := by
    rw [Area.contains_iff] at hinside ⊢
    simp only [Area.indent] at hinside
    omega
  exact hdraws.read_lines (fun _ _ hinside =>
    (hdraws.fill (d := [.frame a style title])).trans (hdraws.blank_frame hx hy (hinner hinside))) plain_window

/-- A character of the window is on the screen, if its place on the page is. -/
theorem exists_cell?_draw {char : Char} (hdraws : Drawing.Draws render) (h : lines output ≠ [])
    (hrow : row < a.height - 2) (hcolumn : column < a.width - 3) (hx : a.x + 2 + column < width)
    (hy : a.y + 1 + row < height)
    (hchar : (Window.slice (lines output) (Window.rows a.height) offset)[row]?.bind (·[column]?) = some char) :
    ∃ cell,
      Screen.cell? (render (draw output a focused offset) width height) (a.x + 2 + column) (a.y + 1 + row) =
        some cell ∧ cell.chars = [char] := by
  obtain ⟨style, rows, ground, title, hdraw⟩ := exists_draw_eq h a focused offset
  have hglyph : Layer.glyphAt? (window (lines output) (Window.rows a.height) offset) column row =
      some { char } := by
    obtain ⟨line, hline, hplace⟩ := Option.bind_eq_some_iff.1 hchar
    rw [Layer.glyphAt?, window, List.getElem?_map, hline, Option.map_some, Option.bind_some,
      List.getElem?_map, hplace, Option.map_some]
  have hwithin : column < a.inner.indent.width := by
    simp only [Area.indent, Area.inner]
    omega
  rw [hdraw]
  exact hdraws.exists_cell?_lines_at hwithin hrow hx hy hglyph

/-- The log shows the lines of the output, and loses none as the output grows.

There is a line for every newline, and one more if the bytes behind the last newline are not all carriage
returns. A line is the segment of the output between two newlines, without carriage returns, and with a point
for every byte that is not printable. More output keeps all lines but the last one, and continues that.

A pane without lines leaves its offset. With lines, it settles on the offset or on the last one that fills the
window, if that is smaller, and shows the lines of the window in order, cut at the edges of the page inside of
its border. On a page that is all on the screen there is nothing else. -/
theorem shows_output_lines (output more : Array UInt8) (a : Area) (focused : Bool)
    (offset width height : Nat) :
    let shown := lines output
    let grown := lines (output ++ more)
    let visible := max 1 (a.height - 2)
    let scroll := settle output a.height offset
    let screen := (draw output a focused scroll).render width height
    let window := (shown.drop scroll).take visible
    let page : Area := { x := a.x + 2, y := a.y + 1, width := a.width - 3, height := a.height - 2 }
    (shown.length = output.toList.count newline +
        if (output.toList.reverse.takeWhile (· ≠ newline)).any (· ≠ carriageReturn) then 1 else 0) ∧
    (∀ i, i < shown.length → shown[i]? =
      (output.toList.splitOn newline)[i]?.map fun segment =>
        (segment.filter (· ≠ carriageReturn)).map printable) ∧
    (∀ byte, (printable byte).toNat =
      if 0x20 ≤ byte.toNat ∧ byte.toNat < 0x7f then byte.toNat else '.'.toNat) ∧
    (∀ i, i + 1 < shown.length → grown[i]? = shown[i]?) ∧
    (∀ line, shown.getLast? = some line →
      ∃ entry, grown[shown.length - 1]? = some entry ∧ line <+: entry) ∧
    (shown = [] → scroll = offset) ∧
    (shown ≠ [] → scroll = min offset (shown.length - visible) ∧
      (∀ row column char, row < page.height → column < page.width →
        page.x + column < width → page.y + row < height →
        window[row]?.bind (·[column]?) = some char →
        ∃ cell, Screen.cell? screen (page.x + column) (page.y + row) = some cell ∧ cell.chars = [char]) ∧
      (a.x + a.width ≤ width → a.y + a.height ≤ height →
        Screen.read screen page = Screen.page page.height page.width window)) := by
  intro shown grown visible scroll screen window page
  have hgrowth := continues_lines output more
  refine ⟨length_lines output, fun i hi => getElem?_lines hi, toNat_printable, hgrowth.kept, hgrowth.last,
    fun hnone => ?_, fun hsome => ⟨settle_of_ne_nil hsome a.height offset, ?_,
      read_draw Drawing.draws_render hsome⟩⟩
  · have hlength : (lines output).length = 0 := List.length_eq_zero_iff.2 hnone
    simp only [scroll, settle, hlength]
  · intro row column char hrow hcolumn hx hy hchar
    exact exists_cell?_draw Drawing.draws_render hsome hrow hcolumn hx hy hchar

/-- Two lines are complete, and a carriage return is pending, of which nothing is shown. One more byte makes it
a third line. A pane of one row shows the second line from the largest offset there is. -/
theorem shows_output_lines_of_returns :
    let output : Array UInt8 := #[0x61, 0x0d, 0x0a, 0x01, 0x62, 0x0a, 0x0d]
    lines output = [['a'], ['.', 'b']] ∧
    lines (output ++ #[0x63]) = [['a'], ['.', 'b'], ['c']] ∧
    (lines output).length = 2 + 0 ∧
    (lines (output ++ #[0x63]))[0]? = (lines output)[0]? ∧
    settle output 3 Word.last = min Word.last (2 - 1) ∧
    Screen.read ((draw output ⟨0, 0, 6, 3⟩ false 1).render 6 3) ⟨2, 1, 3, 1⟩ = [['.', 'b', ' ']] := by
  intro output
  have hlines : lines output = [['a'], ['.', 'b']] := by decide
  obtain ⟨hlength, -, -, hkept, -, -, hpane⟩ :=
    shows_output_lines output #[0x63] ⟨0, 0, 6, 3⟩ false Word.last 6 3
  obtain ⟨hscroll, -, hread⟩ := hpane (by rw [hlines]; decide)
  have hscroll' : settle output 3 Word.last = 1 := by rw [hscroll, hlines]; decide
  have hpage := hread (by decide) (by decide)
  rw [hlines, hscroll'] at hpage
  exact ⟨hlines, by decide, hlength, hkept 0 (by rw [hlines]; decide), hscroll', hpage⟩

end TapeDebugger.Log
