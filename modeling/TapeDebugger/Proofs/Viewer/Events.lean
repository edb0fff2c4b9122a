-- SUMMARY: What may happen to a viewer, what each key makes of its recording, and which recordings it can hold.
import TapeDebugger.Viewer
import TapeDebugger.Proofs.Recording.Resume

/-!
# Events

A viewer is asked to answer a key or to draw itself, and between two such events playing may take its
turn. Only moves through the recording change the recording. `Key.move` says which one a key makes;
drawing and the other keys make none, and a turn of playing is a move forward or nothing. All of these
are made of single moves, so a viewer holds the recording of a number of steps whatever has happened to
it (`Reachable.records`).
-/

namespace TapeDebugger

open Recording (Leads Single Records)

/-- What a character key makes of the recording. -/
def Key.moveChar (r : Recording) (c : Char) : Recording :=
  if c = 'c' ∨ c = 'C' then r.toBreakpoint.2
  else if '1' ≤ c ∧ c ≤ '9' then (Recording.forwardTimes (c.toNat - '0'.toNat) r).2
  else r

/-- What a key makes of the recording. -/
def Key.move (r : Recording) : Key → Recording
  | .char c => moveChar r c
  | .left => r.back.2
  | .right => r.forward.2
  | .enter => r.toEnd.2
  | .backspace => r.rewind.2
  | .up | .down | .tab | .escape | .other => r

namespace Viewer

variable {v : Viewer} {width height : Nat}

/-! ## What happens to a viewer -/

/-- What a viewer is asked for. -/
inductive Event where
  | press (key : Key)
  | render (width height : Nat)
  deriving Repr, DecidableEq

/-- The viewer after an event. -/
def respond (v : Viewer) : Event → Viewer
  | .press key => v.press key
  | .render width height => (v.render width height).1

/-- A viewer that events and turns of playing lead to, from the beginning of a recording. -/
inductive Reachable (first : Recording) : Viewer → Prop where
  | start : Reachable first { recording := first }
  | respond {v : Viewer} (event : Event) (h : Reachable first v) : Reachable first (v.respond event)
  | advance {v : Viewer} (h : Reachable first v) : Reachable first v.advance

theorem Reachable.foldl {first : Recording} (h : Reachable first v) (events : List Event) :
    Reachable first (events.foldl Viewer.respond v) := by
  induction events generalizing v with
  | nil => exact h
  | cons event events ih => exact ih (h.respond event)

/-! ## What does not move -/

@[simp] theorem recording_settle : (v.settle width height).recording = v.recording := rfl

@[simp] theorem playing_settle : (v.settle width height).playing = v.playing := rfl

@[simp] theorem quit_settle : (v.settle width height).quit = v.quit := rfl

@[simp] theorem recording_togglePlaying (v : Viewer) : v.togglePlaying.recording = v.recording := by
  unfold togglePlaying
  split <;> rfl

@[simp] theorem recording_scrollUp (v : Viewer) : v.scrollUp.recording = v.recording := by
  unfold scrollUp
  split <;> rfl

@[simp] theorem recording_scrollDown (v : Viewer) : v.scrollDown.recording = v.recording := by
  unfold scrollDown
  split <;> rfl

/-! ## What moves -/

theorem recording_pressChar (v : Viewer) (c : Char) :
    (v.pressChar c).recording = Key.moveChar v.recording c := by
  unfold pressChar Key.moveChar
  by_cases hquit : c = 'q' ∨ c = 'Q'
  · rw [if_pos hquit]
    rcases hquit with rfl | rfl <;> rfl
  · rw [if_neg hquit]
    by_cases hresume : c = 'c' ∨ c = 'C'
    · rw [if_pos hresume, if_pos hresume]
      rfl
    · rw [if_neg hresume, if_neg hresume]
      by_cases hplay : c = ' '
      · subst hplay
        exact v.recording_togglePlaying
      · rw [if_neg hplay]
        split <;> rfl

/-- A key makes its move, whatever else it does. -/
theorem recording_press (v : Viewer) (key : Key) :
    (v.press key).recording = key.move v.recording := by
  cases key with
  | char c => exact v.recording_pressChar c
  | up => exact v.recording_scrollUp
  | down => exact v.recording_scrollDown
  | left | right | tab | enter | backspace | escape | other => rfl

theorem recording_tick (v : Viewer) : v.tick.recording = v.recording.forward.2 := by
  unfold tick
  generalize v.recording.forward = moved
  obtain ⟨outcome, next⟩ := moved
  cases outcome with
  | error fault => rfl
  | ok =>
    simp only
    split <;> rfl

theorem recording_advance (v : Viewer) :
    v.advance.recording = v.recording ∨ v.advance.recording = v.recording.forward.2 := by
  unfold advance
  split
  · exact .inr v.recording_tick
  · exact .inl rfl

/-! ## Single moves -/

theorem exists_leads_forwardTimes (n : Nat) (r : Recording) :
    ∃ path, Leads r path (Recording.forwardTimes n r).2 := by
  induction n generalizing r with
  | zero => exact ⟨[], .stay⟩
  | succ n ih =>
    have hmove : Single r r.forward.2 := .forward
    rw [Recording.forwardTimes]
    generalize r.forward = moved at hmove ⊢
    obtain ⟨outcome, next⟩ := moved
    cases outcome with
    | ok =>
      obtain ⟨path, hpath⟩ := ih next
      exact ⟨_, .move hmove hpath⟩
    | error => exact ⟨_, hmove.leads⟩

theorem exists_leads_moveChar (r : Recording) (c : Char) :
    ∃ path, Leads r path (Key.moveChar r c) := by
  unfold Key.moveChar
  split
  · exact ⟨_, Recording.leads_path r .toBreakpoint⟩
  · split
    · exact exists_leads_forwardTimes _ r
    · exact ⟨[], .stay⟩

/-- Every key leads on by single moves. -/
theorem exists_leads_move (r : Recording) (key : Key) : ∃ path, Leads r path (key.move r) := by
  cases key with
  | char c => exact exists_leads_moveChar r c
  | left => exact ⟨_, Single.back.leads⟩
  | right => exact ⟨_, Single.forward.leads⟩
  | enter => exact ⟨_, Recording.leads_path r .toEnd⟩
  | backspace => exact ⟨_, Single.rewind.leads⟩
  | up | down | tab | escape | other => exact ⟨[], .stay⟩

/-- A key leaves the recording of some number of steps. -/
theorem exists_records_press {p : Program} {s : State} {budget n : Nat} (hs : p.Sound s)
    (h : Records p s budget n v.recording) (key : Key) :
    ∃ n, Records p s budget n (v.press key).recording := by
  obtain ⟨path, hpath⟩ := exists_leads_move v.recording key
  rw [recording_press]
  exact ⟨_, h.leads hs hpath⟩

/-- A viewer holds the recording of some number of steps, whatever has happened to it. -/
theorem Reachable.records {p : Program} {s : State} {budget : Nat} {first : Recording}
    (hs : p.Sound s) (hfirst : Recording.start p s budget = .ok first) (h : Reachable first v) :
    ∃ n, Records p s budget n v.recording := by
  induction h with
  | start => exact ⟨0, (Recording.records_start hs hfirst).1⟩
  | @respond v event _ ih =>
    obtain ⟨n, hrecords⟩ := ih
    cases event with
    | press key => exact exists_records_press hs hrecords key
    | render width height => exact ⟨n, hrecords⟩
  | @advance v _ ih =>
    obtain ⟨n, hrecords⟩ := ih
    rcases v.recording_advance with hsame | hmove
    · rw [hsame]
      exact ⟨n, hrecords⟩
    · rw [hmove]
      exact ⟨_, hrecords.forward hs⟩

end Viewer

end TapeDebugger
