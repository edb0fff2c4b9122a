-- SUMMARY: However the listing is scrolled and wherever it is drawn, its current line is in view, and at its row unless an end of the source forbids it.
import TapeDebugger.Proofs.View.Windows
import TapeDebugger.Viewer

/-!
# The pinned line

The listing keeps its current line at a row of the window. The row is chosen when the listing is first
drawn, the keys for scrolling move it, and a pane that has become lower pulls it up into the window. Two
clamps follow each other: the row is clamped to the window, and the offset that brings the line to this row
is clamped to the source. The second one takes the line off its row only where the source ends
(`Scroll.pins_settle`).

Between two drawings the row may be anything up to the last word, because the keys know nothing of the
window. That does no harm: what a drawing leaves is said of whatever it has found (`pinned_of_scrolling`).
-/

namespace TapeDebugger

open Window (Shows)

-- ---------------------------------------------------------------------------
-- One drawing
-- ---------------------------------------------------------------------------

namespace Listing

variable {s : Scroll} {current total visible row : Nat}

/-- The current one of `total` lines is in a window of `visible` rows, at the chosen row as far as the ends
of the source allow. -/
structure Scroll.Pins (s : Scroll) (current total visible row : Nat) : Prop where
  row_eq : s.row = some row
  row_lt : row < visible
  offset_le : s.offset ≤ total - visible
  shows : Shows visible s.offset current
  /-- With lines enough above and below, the line is at its row. -/
  at_row : row ≤ current → current - row ≤ total - visible → current - s.offset = row
  /-- It is higher than its row only with the first line in view. -/
  top_of_lt : current - s.offset < row → s.offset = 0
  /-- It is lower than its row only with the last line in view. -/
  bottom_of_lt : row < current - s.offset → s.offset = total - visible

theorem Scroll.offset_settle (s : Scroll) (current total visible : Nat) :
    (s.settle current total visible).offset =
      min (current - s.targetRow visible) (total - visible) := rfl

/-- A drawing pins the current line, whatever the scroll state was. -/
theorem Scroll.pins_settle (s : Scroll) (hvisible : 0 < visible) (hcurrent : current < total) :
    (s.settle current total visible).Pins current total visible (s.targetRow visible) where
  row_eq := rfl
  row_lt := s.targetRow_lt hvisible
  offset_le := Nat.min_le_right _ _
  shows := s.shows_settle hvisible hcurrent
  at_row habove hbelow := by
    rw [offset_settle, Nat.min_eq_left hbelow]
    exact Nat.sub_sub_self habove
  top_of_lt hhigher := by
    rw [offset_settle] at hhigher ⊢
    omega
  bottom_of_lt hlower := by
    rw [offset_settle] at hlower ⊢
    omega

/-- A row within the window stays as it is. -/
theorem Scroll.targetRow_eq (hrow : s.row = some row) (hlt : row < visible) :
    s.targetRow visible = row := by
  rw [targetRow, hrow, Option.getD_some]
  exact Nat.min_eq_left (Nat.le_pred_of_lt hlt)

end Listing

-- ---------------------------------------------------------------------------
-- Scrolling and drawing
-- ---------------------------------------------------------------------------

/-- What happens to the listing while it has the focus. -/
inductive Scrolling where
  /-- It is drawn in a pane of some height, with the instruction pointer at some position. -/
  | draw (ip height : Nat)
  | up
  | down
  deriving Repr, DecidableEq

namespace Viewer

variable {v : Viewer} {source : Array UInt8} {zeroClears : Bool} {ip height : Nat}

/-- The viewer afterwards, with a listing of `source`. -/
def scroll (source : Array UInt8) (zeroClears : Bool) (v : Viewer) : Scrolling → Viewer
  | .draw ip height =>
    { v with listing := Listing.Content.settle { source, ip, zeroClears } height v.listing }
  | .up => v.press .up
  | .down => v.press .down

/-- With the focus on the listing, nothing else is touched. -/
theorem scroll_eq (source : Array UInt8) (zeroClears : Bool) (hfocus : v.focus = .listing)
    (scrolling : Scrolling) :
    v.scroll source zeroClears scrolling =
      { v with listing := (v.scroll source zeroClears scrolling).listing } := by
  cases scrolling with
  | draw ip height => rfl
  | up => simp only [scroll, press, scrollUp, hfocus]
  | down => simp only [scroll, press, scrollDown, hfocus]

theorem foldl_scroll_eq (hfocus : v.focus = .listing) (scrollings : List Scrolling) :
    scrollings.foldl (scroll source zeroClears) v =
      { v with listing := (scrollings.foldl (scroll source zeroClears) v).listing } := by
  induction scrollings generalizing v with
  | nil => rfl
  | cons scrolling rest ih =>
    have hstep := scroll_eq source zeroClears hfocus scrolling
    have hrest := ih (v := v.scroll source zeroClears scrolling) (by rw [hstep]; exact hfocus)
    rw [List.foldl_cons, hrest, hstep]

/-- A drawing pins the line of the instruction pointer. -/
theorem pins_scroll_draw (v : Viewer) (source : Array UInt8) (zeroClears : Bool) (ip height : Nat) :
    (v.scroll source zeroClears (.draw ip height)).listing.Pins
      ((source.toList.take (min ip source.size)).count newline) (source.toList.count newline + 1)
      (max 1 (height - 2)) (v.listing.targetRow (max 1 (height - 2))) := by
  let content : Listing.Content := { source, ip, zeroClears }
  have hline : content.place.line = (source.toList.take (min ip source.size)).count newline :=
    line_locate source _
  have hlines : content.starts.length = source.toList.count newline + 1 := length_lineStarts source
  rw [← hline, ← hlines]
  exact v.listing.pins_settle (Window.rows_pos height) content.line_place_lt_length

/-- Drawing in panes of one height leaves the row as it is, wherever the instruction pointer goes. -/
theorem row_foldl_draw {row : Nat} (hrow : v.listing.row = some row)
    (hlt : row < max 1 (height - 2)) (ips : List Nat) :
    ((ips.map fun ip => Scrolling.draw ip height).foldl (scroll source zeroClears) v).listing.row =
      some row := by
  induction ips generalizing v with
  | nil => exact hrow
  | cons ip rest ih =>
    rw [List.map_cons, List.foldl_cons]
    apply ih
    rw [(v.pins_scroll_draw source zeroClears ip height).row_eq, Listing.Scroll.targetRow_eq hrow hlt]

/-- The listing keeps its current line in view and pinned. Whatever its scroll state is at first, and
whatever drawings and keys for scrolling there have been, once it is drawn: its row is one of the window,
its offset leaves no row empty without need, and the line of the instruction pointer is in the window. The
line is at the row where the source has lines enough around it; it is higher only with the first line of
the source in view, and lower only with the last one. Drawing on in a pane of this height leaves the row as
it is, and nothing but the listing has been touched. -/
theorem pinned_of_scrolling {v : Viewer} (hfocus : v.focus = .listing) (source : Array UInt8)
    (zeroClears : Bool) (earlier : List Scrolling) (ip height : Nat) :
    let after := (earlier ++ [Scrolling.draw ip height]).foldl (scroll source zeroClears) v
    let visible := max 1 (height - 2)
    let last := source.toList.count newline + 1 - visible
    let line := (source.toList.take (min ip source.size)).count newline
    let offset := after.listing.offset
    after = { v with listing := after.listing } ∧
    ∃ row,
      after.listing.row = some row ∧
      row < visible ∧
      offset ≤ last ∧
      (offset ≤ line ∧ line < offset + visible) ∧
      (row ≤ line → line - row ≤ last → line - offset = row) ∧
      (line - offset < row → offset = 0) ∧
      (row < line - offset → offset = last) ∧
      ∀ ips : List Nat,
        ((ips.map fun ip => Scrolling.draw ip height).foldl (scroll source zeroClears) after).listing.row =
          some row := by
  intro after visible last line offset
  have hafter : after = (earlier.foldl (scroll source zeroClears) v).scroll source zeroClears
      (.draw ip height) := by
    simp only [after, List.foldl_append]
    rfl
  have hpins := (earlier.foldl (scroll source zeroClears) v).pins_scroll_draw source zeroClears ip height
  rw [← hafter] at hpins
  exact ⟨foldl_scroll_eq hfocus _, _, hpins.row_eq, hpins.row_lt, hpins.offset_le, hpins.shows,
    hpins.at_row, hpins.top_of_lt, hpins.bottom_of_lt, row_foldl_draw hpins.row_eq hpins.row_lt⟩

/-- A source of five lines is drawn in a pane of three rows. Its first line is to be at the middle row, but is
at the upper one. Two keys then ask for a row below the window. The fourth line is drawn at the lowest row
there is. -/
theorem pinned_of_scrolling_past_window :
    ∃ v : Viewer,
      v.focus = .listing ∧
      let source : Array UInt8 := #[0x0a, 0x0a, 0x0a, 0x0a]
      let first := [Scrolling.draw 0 5].foldl (scroll source false) v
      let after := ([Scrolling.draw 0 5, .up, .up] ++ [Scrolling.draw 3 5]).foldl (scroll source false) v
      first.listing = { offset := 0, row := some 1 } ∧
      after.listing = { offset := 1, row := some 2 } ∧
      3 - after.listing.offset = 2 := by
  let p : Program := ⟨{ tapeSize := 1 }, #[0x0a, 0x0a, 0x0a, 0x0a], #[],
    ⟨#[], #[none, none, none, none], #[none, none, none, none]⟩, rfl, rfl, rfl⟩
  let v : Viewer :=
    { recording :=
        { program := p, live := p.start, archive := { budget := 0 }, position := 0,
          shown := .capture p p.start } }
  refine ⟨v, rfl, ?_⟩
  intro source first after
  have hfirst : first.listing = { offset := 0, row := some 1 } := by decide +kernel
  have hafter : after.listing = { offset := 1, row := some 2 } := by decide +kernel
  have hline : (source.toList.take (min 3 source.size)).count newline = 3 := by decide
  obtain ⟨-, row, hrow, -, -, -, hat, -⟩ :=
    pinned_of_scrolling (v := v) rfl source false [.draw 0 5, .up, .up] 3 5
  have htwo : some 2 = some row := (congrArg Listing.Scroll.row hafter).symm.trans hrow
  rw [hline, ← Option.some.inj htwo] at hat
  exact ⟨hfirst, hafter, hat (by decide) (by decide)⟩

end Viewer

end TapeDebugger
