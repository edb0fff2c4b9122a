-- SUMMARY: Drawing a viewer goes through with every access, slice and sum looked at, whatever has happened to it.
import TapeDebugger.Proofs.View.Checked
import TapeDebugger.Proofs.Viewer.Events

/-!
# Total drawing

`Viewer.render?` draws a viewer out of the checked panes. It gives a screen only if every line lies within
the source, every row within the tape, and every sum within a word. For whatever a viewer has come to, on
a screen of any size, it does, and the screen is that of `Viewer.render` (`render_total`).

Nothing is asked of the offsets: scrolling takes them to the last word. What carries the argument is that
the head is on the tape, that the frame on show is one of those recorded, and that what is held in memory
is counted in words.
-/

namespace TapeDebugger

open Recording (Records)

-- ---------------------------------------------------------------------------
-- The checked drawing
-- ---------------------------------------------------------------------------

namespace Viewer

def settle? (v : Viewer) (width height : Nat) : Option Viewer := do
  let layout := Layout.ofSize width height
  return { v with
    listing := ← v.listingContent.settle? layout.listing.height v.listing
    log := ← Log.settle? (← v.recording.output?) layout.log.height v.log
    dump := ← Dump.settle? v.recording.shown.tape layout.dump.height v.dump }

def draw? (v : Viewer) (width height : Nat) : Option Drawing := do
  let layout := Layout.ofSize width height
  return (← v.listingContent.draw? layout.listing (v.focus = .listing) v.listing.offset)
    ++ Log.draw (← v.recording.output?) layout.log (v.focus = .log) v.log
    ++ (← Dump.draw? v.recording.shown.tape layout.dump (v.focus = .dump) v.dump.offset)
    ++ (← v.statusBar.draw? layout.status)

/-- Draw the viewer on an empty screen, as far as all that it reads is there. -/
def render? (v : Viewer) (width height : Nat) : Option (Viewer × Screen) := do
  let v ← v.settle? width height
  return (v, (← v.draw? width height).render width height)

end Viewer

-- ---------------------------------------------------------------------------
-- It goes through
-- ---------------------------------------------------------------------------

/-- The sizes of a recording are words, as those of all that is held in memory: the bytes of the source,
with one to spare, the bytes that a frame is counted for, and the number of frames. -/
structure Recording.InMemory (r : Recording) : Prop where
  source_lt : r.program.source.size < Word.last
  frame_le : r.program.frameSize ≤ Word.last
  length_le : r.length ≤ Word.last

/-- What drawing relies on: the head is on the tape, and the frame on show is one of those recorded. -/
structure Recording.Drawable (r : Recording) : Prop extends r.InMemory where
  size_tape : r.shown.tape.size = r.program.settings.tapeSize
  head_lt : r.shown.tape.head < r.shown.tape.size
  position_lt : r.position < r.length

variable {p : Program} {s : State} {budget n : Nat}

theorem Recording.Records.drawable {r : Recording} (hs : p.Sound s) (h : Records p s budget n r)
    (hmemory : r.InMemory) : r.Drawable := by
  have hhead := h.head_lt hs
  cases h with
  | @intro k hk _ _ =>
    have hsound := hs.steps (n := k)
    exact { hmemory with
      size_tape := hsound.size_tape
      head_lt := hhead
      position_lt := length_ofSteps ▸ Nat.lt_succ_of_le hk }

namespace Viewer

variable {v : Viewer} {width height : Nat}

/-- The dump stands beside the other panes over the last row. -/
theorem height_dump (width height : Nat) : (Layout.ofSize width height).dump.height = height - 1 := rfl

theorem settle?_eq (h : v.recording.Drawable) (hheight : height < 65536) :
    v.settle? width height = some (v.settle width height) := by
  -- a tape has at most an eighth as many rows as cells, which leaves room for those of any screen
  have hrow : v.recording.shown.tape.head / Dump.cellsPerRow +
      Window.rows (Layout.ofSize width height).dump.height < Word.last := by
    have hhead := h.head_lt
    have hframe := h.frame_le
    rw [h.size_tape] at hhead
    simp only [Program.frameSize, Word.last, UInt64.size] at hframe ⊢
    simp only [Dump.cellsPerRow, height_dump, Window.rows]
    omega
  have hsource : v.listingContent.source.size ≤ Word.last := Nat.le_of_lt h.source_lt
  simp only [settle?, settle, Listing.Content.settle?_eq hsource, Recording.output?_eq,
    Log.settle?_eq, Dump.settle?_eq hrow, Option.bind_eq_bind, Option.bind_some]
  rfl

theorem draw?_eq (h : v.recording.Drawable) (width height : Nat) :
    v.draw? width height = some (v.draw width height) := by
  have hsource : v.listingContent.source.size < Word.last := h.source_lt
  have htape : v.recording.shown.tape.size + Dump.cellsPerRow ≤ Word.last := by
    have hframe := h.frame_le
    simp only [Program.frameSize] at hframe
    rw [h.size_tape]
    simp only [Dump.cellsPerRow]
    omega
  have hposition : v.statusBar.position < Word.last :=
    Nat.lt_of_lt_of_le h.position_lt h.length_le
  simp only [draw?, draw, Listing.Content.draw?_eq hsource, Recording.output?_eq,
    Dump.draw?_eq htape, StatusBar.draw?_eq hposition, Option.bind_eq_bind, Option.bind_some]
  rfl

theorem render?_eq (h : v.recording.Drawable) (hheight : height < 65536) :
    v.render? width height = some (v.render width height) := by
  have hsettled : (v.settle width height).recording.Drawable := h
  simp only [render?, render, settle?_eq h hheight, draw?_eq hsettled, Option.bind_eq_bind,
    Option.bind_some]
  rfl

/-- Once the whole run is recorded, the step on show is told with the number of frames, and is not
larger. -/
theorem step_of_total (h : v.recording.Drawable) {total : Nat} (htotal : v.statusBar.total = some total) :
    v.statusBar.step = s!" Step {v.recording.position + 1}/{total} " ∧
      v.recording.position + 1 ≤ total := by
  have hlength : total = v.recording.length := by
    simp only [statusBar] at htotal
    split at htotal
    · exact (Option.some.inj htotal).symm
    · cases htotal
  have hposition := Nat.succ_le_of_lt h.position_lt
  have hword := Word.wrap_eq_self (Nat.le_trans hposition h.length_le)
  refine ⟨?_, hlength ▸ hposition⟩
  rw [StatusBar.step, htotal]
  simp only [statusBar, hword]
  rfl

/-- Whatever has happened to a viewer, of a run from any state that a program reaches: drawing it on a
screen of any size goes through, although it looks at every access, slice, sum and difference before it
makes it, and it draws what drawing without looking draws. The step that it tells is at most the number of
steps that it tells. -/
theorem render_total {p : Program} {m budget : Nat} {first : Recording} {v : Viewer}
    (hfirst : Recording.start p (p.steps m p.start) budget = .ok first) (hv : Reachable first v)
    (hmemory : v.recording.InMemory) (width height : UInt16) :
    let drawn := v.render width.toNat height.toNat
    v.render? width.toNat height.toNat = some drawn ∧
    ∀ total, drawn.1.statusBar.total = some total →
      drawn.1.statusBar.step = s!" Step {drawn.1.recording.position + 1}/{total} " ∧
      drawn.1.recording.position + 1 ≤ total := by
  have hs := p.sound_steps m
  obtain ⟨_, hrecords⟩ := hv.records hs hfirst
  have hdrawable := hrecords.drawable hs hmemory
  refine ⟨render?_eq hdrawable height.toNat_lt, fun total htotal => ?_⟩
  have hsettled : (v.render width.toNat height.toNat).1.recording.Drawable := hdrawable
  exact step_of_total hsettled htotal

/-- A run of three steps is shown to its end, the log at the last word and the dump scrolled away from the
head. Drawing goes through on the empty screen, and tells step 4 of 4. -/
theorem render_total_on_empty_screen :
    ∃ p first v,
      Program.load { tapeSize := 40, instructionLimit := 9 } #[0x2b, 0x0a, 0x2e] #[] = .ok p ∧
      Recording.start p (p.steps 0 p.start) 2000 = .ok first ∧
      v = ([.press .enter, .press .tab, .press .tab, .press .down, .press .down] : List Event).foldl
        respond { recording := first } ∧
      v.log = Word.last ∧ v.dump = { offset := 2, follow := false } ∧
      v.render? 0 0 = some (v.render 0 0) ∧
      (v.render 0 0).1.statusBar.step = " Step 4/4 " := by
  let p : Program := ⟨{ tapeSize := 40, instructionLimit := 9 }, #[0x2b, 0x0a, 0x2e], #[],
    ⟨#[], #[none, none, none], #[none, none, none]⟩, rfl, rfl, rfl⟩
  have hfits : Archive.Fits p 2000 1 := by decide
  have hfirst := Recording.start_of_fits (p.sound_steps 0) hfits
  let first := Recording.ofSteps p (p.steps 0 p.start) 2000 0 0
  let v : Viewer :=
    ([.press .enter, .press .tab, .press .tab, .press .down, .press .down] : List Event).foldl
      respond { recording := first }
  have hv : Reachable first v := Reachable.start.foldl _
  have hmemory : v.recording.InMemory :=
    ⟨by decide +kernel, by decide +kernel, by decide +kernel⟩
  have hempty : (0 : UInt16).toNat = 0 := rfl
  obtain ⟨hrender, htold⟩ := render_total hfirst hv hmemory 0 0
  rw [hempty] at hrender htold
  obtain ⟨hstep, -⟩ := htold 4 (by decide +kernel)
  have hposition : (v.render 0 0).1.recording.position = 3 := by decide +kernel
  rw [hposition] at hstep
  exact ⟨p, first, v, rfl, hfirst, rfl, by decide +kernel, by decide +kernel, hrender, hstep⟩

end Viewer

end TapeDebugger
