-- SUMMARY: Where the listing marks the byte to be executed next: one cell, unless that byte is a newline.
import TapeDebugger.Proofs.Screen.Cells
import TapeDebugger.Proofs.View.Windows

/-!
# The marked byte

Only the glyph of the byte at the instruction pointer has the ground of a pointer, and every byte of a line
is one glyph. So the mark is found from the line table, the window and the width of the line number alone
(`background?_draw_eq_pointer_iff`), whatever renders the drawing in the way of `Drawing.Draws`.

A line is drawn without the newline behind it. On a newline the instruction pointer has no glyph to be marked
by, and no cell of the pane has the ground.
-/

namespace TapeDebugger

open Window (Shows)

namespace Listing

variable {zeroClears current : Bool} {line column : Nat} {bytes : List UInt8} {g : Glyph}

-- ---------------------------------------------------------------------------
-- Parts of a line
-- ---------------------------------------------------------------------------

/-- A byte is shown as a character: a printable one as itself, a control byte as a blank, and any other
byte as a point. -/
structure ShownAs (byte : UInt8) (char : Char) : Prop where
  printable : 0x20 ≤ byte.toNat → byte.toNat < 0x7f → char.toNat = byte.toNat
  control : byte.toNat < 0x20 ∨ byte.toNat = 0x7f → char = ' '
  other : 0x7f < byte.toNat → char = '.'

theorem shownAs_byteChar (byte : UInt8) : ShownAs byte (byteChar byte) := by
  have hcontrol : isControl byte = true ↔ byte.toNat < 0x20 ∨ byte.toNat = 0x7f := by
    rw [isControl, Bool.or_eq_true, decide_eq_true_iff, UInt8.lt_iff_toNat_lt, beq_iff_eq,
      ← UInt8.toNat_inj]
    rfl
  have hprintable : 0x20 ≤ byte ∧ byte ≤ 0x7e ↔ 0x20 ≤ byte.toNat ∧ byte.toNat ≤ 0x7e := by
    rw [UInt8.le_iff_toNat_le, UInt8.le_iff_toNat_le]
    rfl
  constructor
  · intro hfrom hbelow
    have hvalid : byte.toNat.isValidChar := .inl (by omega)
    rw [byteChar, if_neg (by rw [hcontrol]; omega), printable, if_pos (hprintable.2 (by omega)),
      Char.ofNat, dif_pos hvalid]
    rfl
  · intro h
    rw [byteChar, if_pos (hcontrol.2 h)]
  · intro hbeyond
    rw [byteChar, if_neg (by rw [hcontrol]; omega), printable, if_neg (by rw [hprintable]; omega)]

/-- The width of a line number and the blank behind it. -/
def gutterWidth (line : Nat) : Nat := max 4 (Nat.toDigits 10 (line + 1)).length + 1

theorem length_gutter (line : Nat) (current : Bool) :
    (gutter line current).length = gutterWidth line := by
  have hdigits : '\n' ∉ padLeft 4 ' ' (Nat.toDigits 10 (line + 1)) ++ [' '] := by
    rw [padLeft, List.append_assoc]
    intro hmem
    rcases List.mem_append.1 hmem with hfiller | hmem
    · exact absurd (List.eq_of_mem_replicate hfiller) (by decide)
    · rcases List.mem_append.1 hmem with hdigit | hblank
      · exact absurd (Nat.isDigit_of_mem_toDigits (by decide) (by decide) hdigit) (by decide)
      · exact absurd (List.mem_singleton.1 hblank) (by decide)
  rw [gutter, Text.ofString, String.toList_append, String.toList_ofList,
    show " ".toList = [' '] from rfl, Text.ofChars_eq_map hdigits, List.length_map,
    List.length_append, length_padLeft]
  rfl

theorem bg_of_mem_gutter (h : g ∈ gutter line current) : g.style.bg = none := by
  rw [gutter, Text.ofString] at h
  rw [Text.style_of_mem_ofChars h]
  cases current <;> rfl

theorem bg_byteStyle (zeroClears : Bool) (byte : UInt8) : (byteStyle zeroClears byte).bg = none := by
  unfold byteStyle
  cases Instruction.ofByte? zeroClears byte with
  | none =>
    simp only
    split <;> rfl
  | some i => cases i <;> rfl

theorem bg_of_mem_plainBytes (h : g ∈ plainBytes zeroClears bytes) : g.style.bg = none := by
  obtain ⟨byte, -, rfl⟩ := List.mem_map.1 h
  exact bg_byteStyle zeroClears byte

theorem bg_of_mem_endMark (h : g ∈ endMark) : g.style.bg = none := by
  rw [endMark, Text.ofString] at h
  rw [Text.style_of_mem_ofChars h]

/-- Without a pointer, the bytes of the current line have the ground of the line. -/
theorem bg_of_mem_currentBytes (h : g ∈ currentBytes zeroClears none bytes) :
    g.style.bg = some Palette.band := by
  obtain ⟨column, hcolumn, rfl⟩ := List.mem_mapIdx.1 h
  rfl

theorem band_ne_pointer : some Palette.band ≠ some Palette.pointer := by decide

/-- Of the bytes of the current line, the one at the pointer's column is marked. -/
theorem background?_currentBytes_iff {pointer : Nat} :
    Text.background? (currentBytes zeroClears (some pointer) bytes) column = some Palette.pointer ↔
      column = pointer ∧ pointer < bytes.length := by
  rw [Text.background?, currentBytes, List.getElem?_mapIdx]
  cases hbyte : bytes[column]? with
  | none =>
    have hlength := List.getElem?_eq_none_iff.1 hbyte
    refine iff_of_false (Option.some_ne_none _).symm ?_
    rintro ⟨rfl, hlt⟩
    exact Nat.not_lt_of_le hlength hlt
  | some byte =>
    have hlt := (List.getElem?_eq_some_iff.1 hbyte).1
    rw [Option.map_some, Option.bind_some]
    by_cases hcolumn : pointer = column
    · subst hcolumn
      simp [hlt, Palette.pointed]
    · have hband : ((byteStyle zeroClears byte).patch { bg := some Palette.band }).bg =
        some Palette.band := rfl
      rw [if_neg (fun h => hcolumn (Option.some.inj h)), hband]
      exact iff_of_false band_ne_pointer fun h => hcolumn h.1.symm

-- ---------------------------------------------------------------------------
-- Lines
-- ---------------------------------------------------------------------------

namespace Content

variable {c : Content} {a : Area} {focused : Bool} {visible offset row width height x y : Nat}
  {render : Drawing → Nat → Nat → Screen}

/-- A line is marked at the byte of the instruction pointer, if it has it. -/
theorem background?_line_iff (c : Content) (line column : Nat) :
    Text.background? (c.line c.starts c.place line) column = some Palette.pointer ↔
      line = c.place.line ∧ c.past = false ∧
        column = gutterWidth line + c.place.column ∧
        c.place.column < (lineBytes c.source c.starts line).length := by
  have hgutter (current : Bool) : ∀ g ∈ gutter line current, g.style.bg ≠ some Palette.pointer :=
    fun g hmem hbg => by rw [bg_of_mem_gutter hmem] at hbg; cases hbg
  by_cases hline : line = c.place.line
  · cases hpast : c.past with
    | true =>
      have hbytes : ∀ g ∈ currentBytes c.zeroClears none (lineBytes c.source c.starts line) ++ endMark,
          g.style.bg ≠ some Palette.pointer := by
        intro g hmem
        rcases List.mem_append.1 hmem with hmem | hmem
        · rw [bg_of_mem_currentBytes hmem]
          exact band_ne_pointer
        · rw [bg_of_mem_endMark hmem]
          exact (Option.some_ne_none _).symm
      rw [Content.line, if_pos hline, hpast, if_pos rfl, List.append_assoc,
        Text.background?_append_iff (hgutter true)]
      exact iff_of_false (fun h => Text.background?_ne hbytes _ h.2) fun h => Bool.noConfusion h.2.1
    | false =>
      rw [Content.line, if_pos hline, hpast, if_neg (by decide),
        Text.background?_append_iff (hgutter true), background?_currentBytes_iff, length_gutter]
      constructor
      · rintro ⟨hle, hcolumn, hlt⟩
        exact ⟨hline, rfl, by omega, hlt⟩
      · rintro ⟨-, -, hcolumn, hlt⟩
        exact ⟨by omega, by omega, hlt⟩
  · have hbytes : ∀ g ∈ plainBytes c.zeroClears (lineBytes c.source c.starts line),
        g.style.bg ≠ some Palette.pointer :=
      fun g hmem hbg => by rw [bg_of_mem_plainBytes hmem] at hbg; cases hbg
    rw [Content.line, if_neg hline, Text.background?_append_iff (hgutter false)]
    exact iff_of_false (fun h => Text.background?_ne hbytes _ h.2) fun h => hline h.1

/-- The marked glyph shows the byte at the instruction pointer. -/
theorem getElem?_line_of_byte {byte : UInt8} (hpast : c.past = false)
    (hbyte : (lineBytes c.source c.starts c.place.line)[c.place.column]? = some byte) :
    (c.line c.starts c.place c.place.line)[gutterWidth c.place.line + c.place.column]? =
      some { char := byteChar byte, style := Palette.pointed } := by
  rw [Content.line, if_pos rfl, hpast, if_neg (by decide), ← length_gutter c.place.line true,
    List.getElem?_append_right (Nat.le_add_right _ _), Nat.add_sub_cancel_left, currentBytes,
    List.getElem?_mapIdx, hbyte, Option.map_some, if_pos rfl]

-- ---------------------------------------------------------------------------
-- Panes
-- ---------------------------------------------------------------------------

/-- Of all cells, only the one at a column and a row has the ground of the pointer, and it shows a byte. -/
structure Marks (screen : Screen) (x y : Nat) (byte : UInt8) : Prop where
  background : ∀ x' y', Screen.background? screen x' y' = some Palette.pointer ↔ x' = x ∧ y' = y
  shown : ∃ cell char, Screen.cell? screen x y = some cell ∧ cell.chars = [char] ∧ ShownAs byte char

/-- The one mark of a window is in the row of the current line. -/
theorem bg_glyphAt?_window_iff (hshows : Shows visible offset c.place.line) :
    (Layer.glyphAt? (c.window visible offset) column row).bind (·.style.bg) = some Palette.pointer ↔
      row = c.place.line - offset ∧ c.past = false ∧
        column = gutterWidth c.place.line + c.place.column ∧
        c.place.column < (lineBytes c.source c.starts c.place.line).length := by
  have htotal := c.line_place_lt_length
  obtain ⟨habove, hbelow⟩ := hshows
  rw [window, Window.glyphAt?_map_slice]
  split
  · have hmark := c.background?_line_iff (offset + row) column
    rw [Text.background?] at hmark
    rw [hmark]
    constructor
    · rintro ⟨hline, hmarked⟩
      rw [hline] at hmarked
      exact ⟨by omega, hmarked⟩
    · rintro ⟨rfl, hmarked⟩
      rw [Nat.add_sub_of_le habove]
      exact ⟨rfl, hmarked⟩
  · rename_i hrow
    exact iff_of_false (Option.some_ne_none _).symm fun h => hrow (by omega)

/-- The listing has the ground of the pointer at the byte to be executed, if that is in its line. -/
theorem background?_draw_eq_pointer_iff (hdraws : Drawing.Draws render)
    (hshows : Shows (Window.rows a.height) offset c.place.line) :
    Screen.background? (render (c.draw a focused offset) width height) x y = some Palette.pointer ↔
      (x < width ∧ y < height) ∧ a.inner.contains x y ∧ c.past = false ∧
        c.place.column < (lineBytes c.source c.starts c.place.line).length ∧
        x = a.x + 1 + (gutterWidth c.place.line + c.place.column) ∧
        y = a.y + 1 + (c.place.line - offset) := by
  have htitle : ∀ g ∈ Text.ofString " Source Code ", g.style.bg = none :=
    fun g hmem => by rw [Text.style_of_mem_ofChars hmem]
  rw [draw, hdraws.background?_pane (Palette.bg_border focused) htitle]
  split
  · rename_i hcell
    obtain ⟨⟨hleft, -⟩, htop, -⟩ := Area.contains_iff.1 hcell.2
    rw [bg_glyphAt?_window_iff hshows]
    simp only [Area.inner] at hleft htop ⊢
    constructor
    · rintro ⟨hrow, hpast, hcolumn, hlt⟩
      exact ⟨hcell.1, hcell.2, hpast, hlt, by omega, by omega⟩
    · rintro ⟨-, -, hpast, hlt, hcolumn, hrow⟩
      exact ⟨by omega, hpast, by omega, hlt⟩
  · rename_i hcell
    exact iff_of_false (Option.some_ne_none _).symm fun h => hcell ⟨h.1, h.2.1⟩

/-- The byte at the instruction pointer, in its line at its column. -/
theorem getElem?_lineBytes_place (h : c.ip < c.source.size) :
    (lineBytes c.source c.starts c.place.line)[c.place.column]? =
      if c.source[c.ip]? = some newline then none else c.source[c.ip]? := by
  have hplace : Place.locate (lineStarts c.source) c.ip = c.place := by
    rw [place, Nat.min_eq_left (Nat.le_of_lt h)]
    rfl
  exact getElem?_lineBytes hplace h

/-- While a run has not reached the end of the source, its column is counted from the last newline. -/
theorem column_place (h : c.ip ≤ c.source.size) :
    c.place.column = ((c.source.toList.take c.ip).reverse.takeWhile (· ≠ newline)).length := by
  rw [place, starts, Nat.min_eq_left h, column_locate h]

/-- Without a byte to be marked by, no cell has the ground of the pointer. -/
theorem background?_draw_ne_pointer (hdraws : Drawing.Draws render) (s : Scroll)
    (h : c.source[c.ip]? = some newline ∨ c.source.size ≤ c.ip) :
    Screen.background? (render (c.draw a focused (c.settle a.height s).offset) width height) x y ≠
      some Palette.pointer := by
  intro hpointer
  obtain ⟨-, -, hpast, hlt, -⟩ :=
    (background?_draw_eq_pointer_iff hdraws (c.shows_settle a.height s)).1 hpointer
  rw [past, decide_eq_false_iff_not, Nat.not_le] at hpast
  have hbyte := getElem?_lineBytes_place hpast
  rcases h with hnewline | hsize
  · rw [if_pos hnewline, List.getElem?_eq_none_iff] at hbyte
    exact absurd hlt (Nat.not_lt_of_le hbyte)
  · exact absurd hpast (Nat.not_lt_of_le hsize)

/-- A byte that is not a newline is marked where its place is in the pane. -/
theorem marks_of_byte {byte : UInt8} (hdraws : Drawing.Draws render)
    (hshows : Shows (Window.rows a.height) offset c.place.line)
    (hbyte : c.source[c.ip]? = some byte) (hnewline : byte ≠ newline)
    (hcolumn : x = a.x + 1 + (gutterWidth c.place.line + c.place.column))
    (hrow : y = a.y + 1 + (c.place.line - offset)) (hinner : a.inner.contains x y)
    (hx : x < width) (hy : y < height) :
    Marks (render (c.draw a focused offset) width height) x y byte := by
  have hip : c.ip < c.source.size := (Array.getElem?_eq_some_iff.1 hbyte).1
  have hpast : c.past = false := decide_eq_false (Nat.not_le_of_lt hip)
  have hplace : (lineBytes c.source c.starts c.place.line)[c.place.column]? = some byte := by
    rw [getElem?_lineBytes_place hip, hbyte, if_neg (fun h => hnewline (Option.some.inj h))]
  have hlt := (List.getElem?_eq_some_iff.1 hplace).1
  constructor
  · intro x' y'
    rw [background?_draw_eq_pointer_iff hdraws hshows, ← hcolumn, ← hrow]
    constructor
    · rintro ⟨-, -, -, -, hx', hy'⟩
      exact ⟨hx', hy'⟩
    · rintro ⟨rfl, rfl⟩
      exact ⟨⟨hx, hy⟩, hinner, hpast, hlt, rfl, rfl⟩
  · have hglyph : Layer.glyphAt? (c.window (Window.rows a.height) offset) (x - a.inner.x)
        (y - a.inner.y) = some { char := byteChar byte, style := Palette.pointed } := by
      have hleft : x - a.inner.x = gutterWidth c.place.line + c.place.column :=
        hcolumn ▸ Nat.add_sub_cancel_left ..
      have htop : y - a.inner.y = c.place.line - offset := hrow ▸ Nat.add_sub_cancel_left ..
      rw [hleft, htop, Layer.glyphAt?, getElem?_window hshows c.line_place_lt_length, Option.bind_some]
      exact getElem?_line_of_byte hpast hplace
    obtain ⟨cell, hshown, hchars⟩ := hdraws.exists_cell?_lines (d := [.frame a _ _]) hx hy hinner hglyph
    exact ⟨cell, byteChar byte, hshown, hchars, shownAs_byteChar byte⟩

/-- The listing marks the byte to be executed next, unless it is a newline. Whatever the listing had been
scrolled to and wherever its pane is: where the byte is within the width of the pane, the one cell with the
ground of the pointer is in the row of its line, behind the line number at its column, and has the character
of the byte. A newline has no such cell, and neither has the end of the source. -/
theorem marks_unless_newline (c : Content) (s : Scroll) (a : Area) (focused : Bool)
    (width height : Nat) :
    let offset := (c.settle a.height s).offset
    let screen := (c.draw a focused offset).render width height
    let before := c.source.toList.take c.ip
    let line := before.count newline
    let column := (before.reverse.takeWhile (· ≠ newline)).length
    let left := max 4 (Nat.toDigits 10 (line + 1)).length + 1 + column
    let x := a.x + 1 + left
    let y := a.y + 1 + (line - offset)
    (∀ byte, c.source[c.ip]? = some byte → byte ≠ newline → 2 < a.height → left < a.width - 2 →
      (offset ≤ line ∧ line < offset + (a.height - 2)) ∧
      (a.x + a.width ≤ width → a.y + a.height ≤ height → x < width ∧ y < height) ∧
      (x < width → y < height → Marks screen x y byte)) ∧
    (c.source[c.ip]? = some newline ∨ c.source.size ≤ c.ip →
      ∀ x' y', Screen.background? screen x' y' ≠ some Palette.pointer) := by
  intro offset screen before line column left x y
  refine ⟨fun byte hbyte hnewline hheight hleft => ?_,
    fun h x' y' => background?_draw_ne_pointer Drawing.draws_render s h⟩
  have hip : c.ip < c.source.size := (Array.getElem?_eq_some_iff.1 hbyte).1
  have hline : c.place.line = line := c.line_place
  have hgutter : gutterWidth c.place.line + c.place.column = left := by
    rw [hline, column_place (Nat.le_of_lt hip)]
    rfl
  have hshows : Shows (Window.rows a.height) offset c.place.line := c.shows_settle a.height s
  have hrow : offset ≤ line ∧ line < offset + (a.height - 2) := by
    obtain ⟨habove, hbelow⟩ := hshows
    simp only [Window.rows, hline] at habove hbelow
    omega
  have hinner : a.inner.contains x y := by
    rw [Area.contains_iff]
    simp only [Area.inner]
    omega
  refine ⟨hrow, fun hright hbottom => by omega, fun hx hy => ?_⟩
  exact marks_of_byte Drawing.draws_render hshows hbyte hnewline (by rw [hgutter]) (by rw [hline]) hinner
    hx hy

/-- A source of two lines is drawn in a pane of three rows, with the instruction pointer first on the last
byte, then on the newline, then at the end. -/
theorem marks_unless_newline_of_two_lines :
    let screenAt (ip : Nat) : Screen :=
      let c : Content := { source := #[0x2b, 0x0a, 0x2d], ip, zeroClears := false }
      (c.draw ⟨0, 0, 12, 5⟩ true (c.settle 5 {}).offset).render 12 5
    Marks (screenAt 2) 6 2 0x2d ∧
    (∀ x y, Screen.background? (screenAt 1) x y ≠ some Palette.pointer) ∧
    ∀ x y, Screen.background? (screenAt 3) x y ≠ some Palette.pointer := by
  intro screenAt
  let c (ip : Nat) : Content := { source := #[0x2b, 0x0a, 0x2d], ip, zeroClears := false }
  have hcell (x y : Nat) (hx : x = 6) (hy : y = 2) (h : Marks (screenAt 2) x y 0x2d) :
      Marks (screenAt 2) 6 2 0x2d := by
    subst hx hy
    exact h
  have hbyte := (marks_unless_newline (c 2) {} ⟨0, 0, 12, 5⟩ true 12 5).1 0x2d rfl (by decide)
    (by decide) (by decide)
  exact ⟨hcell _ _ (by decide) (by decide) (hbyte.2.2 (by decide) (by decide)),
    (marks_unless_newline (c 1) {} ⟨0, 0, 12, 5⟩ true 12 5).2 (.inl rfl),
    (marks_unless_newline (c 3) {} ⟨0, 0, 12, 5⟩ true 12 5).2 (.inr (by decide))⟩

/-- On a newline the instruction pointer is lost from sight, though its place is well within the pane. -/
theorem unmarked_on_newline :
    ∃ (c : Content) (s : Scroll) (a : Area),
      c.ip < c.source.size ∧
      (0 < a.inner.width ∧ 0 < a.inner.height) ∧
      (a.x + a.width ≤ 12 ∧ a.y + a.height ≤ 5) ∧
      gutterWidth c.place.line + c.place.column < a.inner.width ∧
      ∀ x y, Screen.background? ((c.draw a true (c.settle a.height s).offset).render 12 5) x y ≠
        some Palette.pointer := by
  let c : Content := { source := #[0x2b, 0x0a, 0x2d], ip := 1, zeroClears := false }
  exact ⟨c, {}, ⟨0, 0, 12, 5⟩, by decide, by decide, by decide, by decide,
    fun x y => background?_draw_ne_pointer Drawing.draws_render {} (.inl rfl)⟩

end Content

end Listing

end TapeDebugger
