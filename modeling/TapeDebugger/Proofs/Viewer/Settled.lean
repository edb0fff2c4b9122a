-- SUMMARY: Drawing a viewer touches nothing but its offsets, and drawing it once more changes nothing at all.
import TapeDebugger.Proofs.Viewer.Total

/-!
# Settled viewers

Every pane reads its offset, fits it to its content and its size, and keeps the result for the next time. So a
viewer might look different when it is drawn a second time, without anything having happened in between. It
does not, because a settled pane settles on itself: the row of the listing is clamped to the window already,
the log is clamped to its lines, and the dump shows the row of the head, so that following it moves no
further. The last one is where the order of the two steps matters, as the clamp after following could take
the row out of the window again. It cannot, as long as the head is on the tape.
-/

namespace TapeDebugger

-- ---------------------------------------------------------------------------
-- Panes
-- ---------------------------------------------------------------------------

namespace Listing

theorem Scroll.targetRow_settle (s : Scroll) (current total visible : Nat) :
    (s.settle current total visible).targetRow visible = s.targetRow visible := by
  simp only [settle, targetRow, Option.getD_some, Nat.min_assoc, Nat.min_self]

/-- Of a scroll state, only the row that it asks for is read. -/
theorem Scroll.settle_congr {s s' : Scroll} {visible : Nat} (h : s.targetRow visible = s'.targetRow visible)
    (current total : Nat) : s.settle current total visible = s'.settle current total visible := by
  simp only [settle, h]

theorem Scroll.settle_settle (s : Scroll) (current total visible : Nat) :
    (s.settle current total visible).settle current total visible = s.settle current total visible :=
  settle_congr (s.targetRow_settle current total visible) current total

end Listing

namespace Dump

variable {index visible total : Nat}

/-- With the row on the tape, following and clamping leave what they would leave again. -/
theorem Scroll.settle_settle (s : Scroll) (hvisible : 0 < visible) (hindex : index < total) :
    (s.settle index total visible).settle index total visible = s.settle index total visible := by
  cases hfollow : s.follow with
  | true =>
    have hshows := s.shows_settle hfollow hvisible hindex
    simp only [settle, hfollow, if_true] at hshows ⊢
    rw [reveal_of_shows hshows, Window.clamp_clamp]
  | false =>
    simp only [settle, hfollow, Bool.false_eq_true, if_false, Window.clamp_clamp]

end Dump

theorem Log.settle_settle (output : Array UInt8) (height offset : Nat) :
    settle output height (settle output height offset) = settle output height offset := by
  unfold settle
  cases (lines output).length with
  | zero => rfl
  | succ total => exact Window.clamp_clamp _ _ offset

-- ---------------------------------------------------------------------------
-- Viewers
-- ---------------------------------------------------------------------------

namespace Viewer

variable {v : Viewer} {width height : Nat}

/-- Fitting the offsets to a screen changes offsets only. -/
theorem settle_eq (v : Viewer) (width height : Nat) :
    v.settle width height =
      { v with
        listing := (v.settle width height).listing
        dump := { v.dump with offset := (v.settle width height).dump.offset }
        log := (v.settle width height).log } := rfl

theorem settle_settle (hhead : v.recording.shown.tape.head < v.recording.shown.tape.size) :
    (v.settle width height).settle width height = v.settle width height := by
  have hlisting : ((v.settle width height).settle width height).listing =
      (v.settle width height).listing := Listing.Scroll.settle_settle _ _ _ _
  have hlog : ((v.settle width height).settle width height).log = (v.settle width height).log :=
    Log.settle_settle _ _ _
  have hdump : ((v.settle width height).settle width height).dump = (v.settle width height).dump :=
    Dump.Scroll.settle_settle _ (Window.rows_pos _) (Dump.div_lt_rowCount hhead)
  rw [settle_eq (v.settle width height), hlisting, hdump, hlog]

/-- A viewer that has been drawn is drawn as it was. -/
theorem render_render (hhead : v.recording.shown.tape.head < v.recording.shown.tape.size) :
    (v.render width height).1.render width height = v.render width height := by
  have hsettle : (v.render width height).1.settle width height = (v.render width height).1 :=
    settle_settle hhead
  rw [render, hsettle]
  rfl

/-- Whatever has happened to a viewer, of a run from any state that a program reaches: drawing it on a screen
of any size touches nothing but the offset and the row of the listing and the offsets of the dump and of the
log. Drawing it on an empty screen of the same size once more gives the same screen, styles included, and leaves
the viewer as it is. In memory, both go through. -/
theorem render_idempotent {p : Program} {m budget : Nat} {first : Recording} {v : Viewer}
    (hfirst : Recording.start p (p.steps m p.start) budget = .ok first) (hv : Reachable first v)
    (width height : Nat) :
    let drawn := v.render width height
    drawn.1 =
      { v with
        listing := drawn.1.listing
        dump := { v.dump with offset := drawn.1.dump.offset }
        log := drawn.1.log } ∧
    drawn.1.render width height = drawn ∧
    (v.recording.InMemory → height < 65536 →
      v.render? width height = some drawn ∧ drawn.1.render? width height = some drawn) := by
  intro drawn
  have hs := p.sound_steps m
  obtain ⟨_, hrecords⟩ := hv.records hs hfirst
  have hagain : drawn.1.render width height = drawn := render_render (hrecords.head_lt hs)
  refine ⟨settle_eq v width height, hagain, fun hmemory hheight => ?_⟩
  have hdrawable : v.recording.Drawable := hrecords.drawable hs hmemory
  -- drawing does not touch the recording, so what can be drawn can be drawn again
  have hdrawn : drawn.1.recording.Drawable := hdrawable
  exact ⟨render?_eq hdrawable hheight, (render?_eq hdrawn hheight).trans (congrArg some hagain)⟩

/-- A run of three steps is shown to its end, and the dump is scrolled down by four rows, past its last
window. Drawing on a screen of 40 by 6 fits all three panes, and drawing again changes nothing. -/
theorem render_idempotent_of_scrolled :
    ∃ p first v,
      Program.load { tapeSize := 40, instructionLimit := 9 } #[0x2b, 0x0a, 0x2e] #[] = .ok p ∧
      Recording.start p (p.steps 0 p.start) 2000 = .ok first ∧
      v = (Event.press .enter :: .press .tab :: .press .tab :: List.replicate 4 (.press .down)).foldl
        respond { recording := first } ∧
      (v.listing = {} ∧ v.dump = { offset := 4, follow := false } ∧ v.log = Word.last) ∧
      ((v.render 40 6).1.listing = { offset := 0, row := some 1 } ∧
        (v.render 40 6).1.dump = { offset := 2, follow := false } ∧ (v.render 40 6).1.log = 0) ∧
      (v.render 40 6).1.render 40 6 = v.render 40 6 ∧
      (v.render 40 6).1.render? 40 6 = some (v.render 40 6) := by
  let p : Program := ⟨{ tapeSize := 40, instructionLimit := 9 }, #[0x2b, 0x0a, 0x2e], #[],
    ⟨#[], #[none, none, none], #[none, none, none]⟩, rfl, rfl, rfl⟩
  have hfits : Archive.Fits p 2000 1 := by decide
  have hfirst := Recording.start_of_fits (p.sound_steps 0) hfits
  let first := Recording.ofSteps p (p.steps 0 p.start) 2000 0 0
  let v : Viewer :=
    (Event.press .enter :: .press .tab :: .press .tab :: List.replicate 4 (.press .down)).foldl
      respond { recording := first }
  have hv : Reachable first v := Reachable.start.foldl _
  have hmemory : v.recording.InMemory :=
    ⟨by decide +kernel, by decide +kernel, by decide +kernel⟩
  obtain ⟨-, hagain, hchecked⟩ := render_idempotent hfirst hv 40 6
  exact ⟨p, first, v, rfl, hfirst, rfl, by decide +kernel, by decide +kernel, hagain,
    (hchecked hmemory (by decide)).2⟩

end Viewer

end TapeDebugger
