-- SUMMARY: After every move the windows of all three panes settle on the frame, however they were scrolled before.
import TapeDebugger.Proofs.View.Windows
import TapeDebugger.Proofs.Viewer.Cursor

/-!
# Following a run

Scrolling may take every pane away from the frame on show. Whatever moves through the recording lets the
panes follow again, also when the move fails (`Navigates.follows`): the dump follows the head, and the
log is sent to the largest offset there is. The listing needs nothing of the kind, because it settles its
offset from the current line alone. What a screen then settles are windows that show the line of the
instruction pointer, the row of the head, and the last line of the output.
-/

namespace TapeDebugger.Viewer

open Recording (Records)
open Window (Shows)

variable {v next : Viewer} {p : Program} {s : State} {budget n : Nat}

-- ---------------------------------------------------------------------------
-- Moves that follow
-- ---------------------------------------------------------------------------

/-- A viewer comes from another by a key that moves through the recording, or by a tick of playing. -/
inductive Navigates (v : Viewer) : Viewer → Prop where
  | press {key : Key} (hmoves : (Event.press key).isIdle = false) : Navigates v (v.press key)
  | tick : Navigates v v.tick

/-- The dump follows the head, and the log is at the largest offset there is. -/
structure Follows (v : Viewer) : Prop where
  dump_follow : v.dump.follow = true
  log_last : v.log = Word.last

theorem follows_follow (v : Viewer) : v.follow.Follows := ⟨rfl, rfl⟩

theorem follows_tick (v : Viewer) : v.tick.Follows := by
  unfold tick
  generalize v.recording.forward = moved
  obtain ⟨outcome, recording⟩ := moved
  cases outcome with
  | error fault => exact follows_follow _
  | ok =>
    simp only
    split
    · exact follows_follow _
    · exact follows_follow _

theorem follows_pressChar {c : Char} (hmoves : c = 'c' ∨ c = 'C' ∨ '1' ≤ c ∧ c ≤ '9') (v : Viewer) :
    (v.pressChar c).Follows := by
  rcases hmoves with rfl | rfl | hdigit
  · exact ⟨rfl, rfl⟩
  · exact ⟨rfl, rfl⟩
  · have hother {d : Char} (hd : ¬ ('1' ≤ d ∧ d ≤ '9')) : c ≠ d := fun heq => hd (heq ▸ hdigit)
    unfold pressChar
    rw [if_neg (not_or.2 ⟨hother (by decide), hother (by decide)⟩),
      if_neg (not_or.2 ⟨hother (by decide), hother (by decide)⟩), if_neg (hother (by decide)),
      if_pos hdigit]
    exact follows_follow _

/-- Whatever moves lets the panes follow, whether the move succeeds or fails. -/
theorem Navigates.follows (h : Navigates v next) : next.Follows := by
  cases h with
  | tick => exact v.follows_tick
  | @press key hmoves =>
    cases key with
    | char c =>
      simp only [Event.isIdle, Bool.not_eq_false', decide_eq_true_eq] at hmoves
      exact follows_pressChar hmoves v
    | left | right | enter | backspace => exact ⟨rfl, rfl⟩
    | up | down | tab | escape | other => cases hmoves

theorem Navigates.exists_records (hs : p.Sound s) (h : Navigates v next)
    (hrecords : Records p s budget n v.recording) : ∃ n, Records p s budget n next.recording := by
  cases h with
  | press hmoves => exact exists_records_press hs hrecords _
  | tick =>
    rw [recording_tick]
    exact ⟨_, hrecords.forward hs⟩

-- ---------------------------------------------------------------------------
-- What the next screen settles
-- ---------------------------------------------------------------------------

/-- Whatever its scroll state, the listing shows the line of the instruction pointer. -/
theorem shows_line_settle (h : Records p s budget n v.recording) (width height : Nat) :
    Shows (Window.rows (Layout.ofSize width height).listing.height)
      (v.settle width height).listing.offset
      ((p.source.toList.take v.recording.shown.ip).count newline) := by
  have hline := v.listingContent.line_place
  simp only [listingContent, h.on_show.1] at hline
  rw [← hline, ← h.on_show.1]
  exact v.listingContent.shows_settle _ v.listing

/-- While it follows, the dump shows the row of the head. -/
theorem shows_head_settle (hs : p.Sound s) (h : Records p s budget n v.recording)
    (hfollow : v.dump.follow = true) (width height : Nat) :
    Shows (Window.rows (Layout.ofSize width height).dump.height) (v.settle width height).dump.offset
      (v.recording.shown.tape.head / Dump.cellsPerRow) :=
  Dump.shows_settle (h.head_lt hs) hfollow _

/-- The output on show has no more bytes than a word counts, as long as its capacity is one. -/
theorem size_output_le (hs : p.Sound s) (h : Records p s budget n v.recording)
    (hcapacity : p.settings.outputCapacity ≤ Word.last) : v.recording.output.size ≤ Word.last := by
  have hsound := hs.steps (n := v.recording.position)
  have hwritten := hsound.written_le
  rw [hsound.limit_spool] at hwritten
  rw [h.on_show.2.2]
  have : 1 ≤ Word.last := by decide
  omega

/-- From the largest offset there is, the log settles on its last lines. -/
theorem log_settle (hlog : v.log = Word.last) (hlines : Log.lines v.recording.output ≠ [])
    (hsize : v.recording.output.size ≤ Word.last) (width height : Nat) :
    (v.settle width height).log =
      (Log.lines v.recording.output).length -
        Window.rows (Layout.ofSize width height).log.height := by
  have hsettle := Log.settle_last hlines hsize (Layout.ofSize width height).log.height
  rw [← hlog] at hsettle
  exact hsettle

-- ---------------------------------------------------------------------------
-- After a move
-- ---------------------------------------------------------------------------

/-- Whatever has happened to a viewer, of a run from any state that a program reaches, and whatever moves
it now, also in vain: on a screen of any size, the windows of all three panes settle on the frame. The
window of the listing has the line of the instruction pointer, the window of the dump the row of the head,
and the window of the log the last line of the output, which is its last row unless all lines fit. In the
rows of the window each of them has the place that its number and the offset give it; how a window is drawn
is not looked at here. -/
theorem shows_frame_of_navigates {p : Program} {m budget : Nat} {first : Recording} {v next : Viewer}
    (hfirst : Recording.start p (p.steps m p.start) budget = .ok first)
    (hcapacity : p.settings.outputCapacity ≤ Word.last) (hv : Reachable first v)
    (hmove : Navigates v next) (width height : Nat) :
    let after := (next.render width height).1
    let layout := Layout.ofSize width height
    let visible (pane : Area) : Nat := max 1 (pane.height - 2)
    let shown := after.recording.shown
    let content := after.listingContent
    let line := (p.source.toList.take shown.ip).count newline
    let row := shown.tape.head / 8
    let lines := Log.lines after.recording.output
    (after.recording = next.recording ∧
      shown = Frame.capture p (p.steps after.recording.position (p.steps m p.start))) ∧
    (Shows (visible layout.listing) after.listing.offset line ∧
      (content.window (visible layout.listing) after.listing.offset)[line - after.listing.offset]? =
        some (content.line content.starts content.place line)) ∧
    (Shows (visible layout.dump) after.dump.offset row ∧
      (Dump.window shown.tape (visible layout.dump) after.dump.offset)[row - after.dump.offset]? =
        some (Dump.row shown.tape row)) ∧
    (lines ≠ [] →
      Shows (visible layout.log) after.log (lines.length - 1) ∧
      (lines.length ≤ visible layout.log ∨ lines.length = after.log + visible layout.log) ∧
      (Log.window lines (visible layout.log) after.log).getLast? =
        lines.getLast?.map fun chars => chars.map fun char => ({ char } : Glyph)) := by
  intro after layout visible shown content line row lines
  have hs := p.sound_steps m
  obtain ⟨_, hbefore⟩ := hv.records hs hfirst
  obtain ⟨n, hrecords⟩ := hmove.exists_records hs hbefore
  obtain ⟨hfollow, hlog⟩ := hmove.follows
  have hcontent : content.source = p.source := congrArg Program.source hrecords.on_show.1
  have hline : line = content.place.line := by
    rw [content.line_place, hcontent]
    rfl
  have hshowsLine : Shows (visible layout.listing) after.listing.offset line :=
    shows_line_settle hrecords width height
  have hshowsRow : Shows (visible layout.dump) after.dump.offset row :=
    shows_head_settle hs hrecords hfollow width height
  have hrow : row < Dump.rowCount shown.tape.size := by
    refine Dump.div_lt_rowCount ?_
    rw [show shown = _ from hrecords.on_show.2.1]
    exact (hs.steps _).head_lt_size
  refine ⟨⟨rfl, hrecords.on_show.2.1⟩, ⟨hshowsLine, ?_⟩,
    ⟨hshowsRow, Dump.getElem?_window hshowsRow hrow⟩, fun hlines => ?_⟩
  · exact Listing.Content.getElem?_window hshowsLine (hline ▸ content.line_place_lt_length)
  · -- the log was sent to the last word, which clamping takes back to the last full window
    have hoffset : after.log = lines.length - visible layout.log :=
      log_settle hlog hlines (size_output_le hs hrecords hcapacity) width height
    have hpos : 0 < lines.length := List.length_pos_iff.2 hlines
    have hvisible : 0 < visible layout.log := Window.rows_pos _
    refine ⟨⟨?_, ?_⟩, ?_, Log.getLast?_window ?_ ?_⟩
    all_goals omega

/-- The run of three lines `,.` on the input `a`, newline, `b` is shown to its end. Then the dump is scrolled
to its third row, and a move forward fails. A screen of 40 by 6 shows the third line of the source, the
first row of the tape and the second line of the output. -/
theorem shows_frame_of_navigates_in_vain :
    ∃ p first v,
      Program.load { tapeSize := 40, instructionLimit := 9 }
        #[0x2c, 0x2e, 0x0a, 0x2c, 0x2e, 0x0a, 0x2c, 0x2e] #[0x61, 0x0a, 0x62] = .ok p ∧
      Recording.start p (p.steps 0 p.start) 2000 = .ok first ∧
      v = ([.press .enter, .press .tab, .press .tab, .press .down, .press .down] : List Event).foldl
        respond { recording := first } ∧
      v.dump = { offset := 2, follow := false } ∧
      v.recording.forward.1 = .error .runEnded ∧
      Shows 2 ((v.press .right).render 40 6).1.listing.offset 2 ∧
      Shows 3 ((v.press .right).render 40 6).1.dump.offset 0 ∧
      Shows 1 ((v.press .right).render 40 6).1.log 1 := by
  let p : Program := ⟨{ tapeSize := 40, instructionLimit := 9 },
    #[0x2c, 0x2e, 0x0a, 0x2c, 0x2e, 0x0a, 0x2c, 0x2e], #[0x61, 0x0a, 0x62],
    ⟨#[], #[none, none, none, none, none, none, none, none],
      #[none, none, none, none, none, none, none, none]⟩, rfl, rfl, rfl⟩
  have hfits : Archive.Fits p 2000 1 := by decide
  have hfirst := Recording.start_of_fits (p.sound_steps 0) hfits
  let first := Recording.ofSteps p (p.steps 0 p.start) 2000 0 0
  let v : Viewer :=
    ([.press .enter, .press .tab, .press .tab, .press .down, .press .down] : List Event).foldl
      respond { recording := first }
  have hv : Reachable first v := Reachable.start.foldl _
  have hmove : Navigates v (v.press .right) := .press rfl
  obtain ⟨-, ⟨hline, -⟩, ⟨hrow, -⟩, hlog⟩ :=
    shows_frame_of_navigates hfirst (by decide) hv hmove 40 6
  have hlayout : Layout.ofSize 40 6 =
      { listing := ⟨0, 0, 22, 4⟩, log := ⟨0, 4, 22, 1⟩, dump := ⟨22, 0, 18, 5⟩,
        status := ⟨0, 5, 40, 1⟩ } := by decide
  have hip : ((v.press .right).render 40 6).1.recording.shown.ip = 8 := by decide +kernel
  have hhead : ((v.press .right).render 40 6).1.recording.shown.tape.head = 0 := by decide +kernel
  have hlines : Log.lines ((v.press .right).render 40 6).1.recording.output = [['a'], ['b']] := by
    decide +kernel
  rw [hip, hlayout] at hline
  rw [hhead, hlayout] at hrow
  rw [hlines, hlayout] at hlog
  have hshows := (hlog (List.cons_ne_nil _ _)).1
  exact ⟨p, first, v, rfl, hfirst, rfl, by decide +kernel, by decide +kernel, hline, hrow, hshows⟩

end TapeDebugger.Viewer
