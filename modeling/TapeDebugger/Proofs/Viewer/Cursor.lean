-- SUMMARY: A viewer moves like a cursor on a line of positions, which ends where the run or its budget does.
import TapeDebugger.Proofs.Viewer.Events
import Mathlib.Logic.Function.Iterate

/-!
# The cursor

What a viewer shows is settled by one number, the position of the frame on show. `Track` is a line of
positions with a last one and some that rest, and says where each key leads on it. A viewer does the same
on the track of its recording: the line ends at the horizon, and a position rests where the run has
stopped or a breakpoint is next. The moves of a recording are settled one by one
(`Reached.position_move`), one event follows from them, and any number of events by induction.
-/

namespace TapeDebugger

namespace Viewer

/-! ## Tracks -/

/-- A line of positions. -/
structure Track where
  /-- The last position. -/
  last : Nat
  /-- Where resuming comes to rest. -/
  rests : Nat → Bool

namespace Track

/-- The next position that rests, or the last one if there is none. -/
def resume (t : Track) (position : Nat) : Nat :=
  ((List.range (t.last + 1)).find? fun q => decide (position < q) && t.rests q).getD t.last

/-- Where a key leads to. -/
def press (t : Track) (position : Nat) : Key → Nat
  | .char c =>
    if c = 'c' ∨ c = 'C' then t.resume position
    else if '1' ≤ c ∧ c ≤ '9' then min (position + (c.toNat - '0'.toNat)) t.last
    else position
  | .left => position - 1
  | .right => min (position + 1) t.last
  | .enter => t.last
  | .backspace => 0
  | .up | .down | .tab | .escape | .other => position

/-- Where an event leads to. -/
def respond (t : Track) (position : Nat) : Event → Nat
  | .press key => t.press position key
  | .render _ _ => position

variable {t : Track} {position q : Nat}

theorem resume_eq (hlt : position < q) (hq : q ≤ t.last)
    (hgoes : ∀ j, position < j → j < q → t.rests j = false) (hrests : t.rests q = true) :
    t.resume position = q := by
  have hfind : (List.range (t.last + 1)).find? (fun q => decide (position < q) && t.rests q) =
      some q := by
    rw [List.find?_range_eq_some]
    refine ⟨by simp [hlt, hrests], List.mem_range.2 (Nat.lt_succ_of_le hq), fun j hj => ?_⟩
    by_cases hbehind : position < j
    · simp [hgoes j hbehind hj]
    · simp [hbehind]
  rw [resume, hfind]
  rfl

theorem resume_eq_last (hgoes : ∀ j, position < j → j ≤ t.last → t.rests j = false) :
    t.resume position = t.last := by
  have hfind : (List.range (t.last + 1)).find? (fun q => decide (position < q) && t.rests q) =
      none := by
    rw [List.find?_range_eq_none]
    intro j hj
    by_cases hbehind : position < j
    · simp [hgoes j hbehind (Nat.le_of_lt_succ hj)]
    · simp [hbehind]
  rw [resume, hfind]
  rfl

/-- There is a next position that rests, or none. -/
theorem next_or_none (t : Track) (position : Nat) :
    (∃ q, position < q ∧ q ≤ t.last ∧ t.rests q = true ∧
      ∀ j, position < j → j < q → t.rests j = false) ∨
    ∀ j, position < j → j ≤ t.last → t.rests j = false := by
  by_cases hsome : ∃ q, position < q ∧ q ≤ t.last ∧ t.rests q = true
  · refine .inl ⟨Nat.find hsome, (Nat.find_spec hsome).1, (Nat.find_spec hsome).2.1,
      (Nat.find_spec hsome).2.2, fun j hj hlt => ?_⟩
    refine Bool.eq_false_of_not_eq_true fun hrests => Nat.find_min hsome hlt ⟨hj, ?_, hrests⟩
    exact Nat.le_trans (Nat.le_of_lt hlt) (Nat.find_spec hsome).2.1
  · refine .inr fun j hj hle => Bool.eq_false_of_not_eq_true fun hrests => ?_
    exact hsome ⟨j, hj, hle, hrests⟩

end Track

/-- Whether an event is none of the keys that move. -/
def Event.isIdle : Event → Bool
  | .press (.char c) => !decide (c = 'c' ∨ c = 'C' ∨ '1' ≤ c ∧ c ≤ '9')
  | .press .left | .press .right | .press .enter | .press .backspace => false
  | .press .up | .press .down | .press .tab | .press .escape | .press .other => true
  | .render _ _ => true

theorem Track.respond_of_isIdle {event : Event} (h : event.isIdle = true) (t : Track)
    (position : Nat) : t.respond position event = position := by
  cases event with
  | render width height => rfl
  | press key =>
    cases key with
    | char c =>
      simp only [Event.isIdle, Bool.not_eq_true', decide_eq_false_iff_not, not_or] at h
      obtain ⟨hlower, hupper, hdigit⟩ := h
      rw [respond, press, if_neg (by simp [hlower, hupper]), if_neg hdigit]
    | left | right | enter | backspace => simp [Event.isIdle] at h
    | up | down | tab | escape | other => rfl

end Viewer

open Viewer (Track Event)

/-- The line of positions of a recording. -/
def Program.track (p : Program) (s : State) (budget : Nat) : Track where
  last := Recording.horizon p s budget
  rests := p.restsAt s

namespace Recording

variable {p : Program} {s : State} {budget : Nat} {r : Recording}

/-- Going forward so many times is one move forward after another, also where they fail. -/
theorem Records.forwardTimes_eq_iterate {n : Nat} (hs : p.Sound s) (h : Records p s budget n r)
    (times : Nat) : (forwardTimes times r).2 = (fun r => r.forward.2)^[times] r := by
  induction times generalizing n r with
  | zero => rfl
  | succ times ih =>
    rcases h.forward_cases hs with ⟨next, hok, hnext, -⟩ | ⟨fault, hfails, -⟩
    · rw [forwardTimes, Function.iterate_succ_apply, hok]
      exact ih hnext
    · have hfixed : (fun r : Recording => r.forward.2) r = r := congrArg Prod.snd hfails
      rw [Function.iterate_fixed hfixed, forwardTimes, hfails]

/-! ## Where moves lead -/

namespace Reached

theorem position_forward (hbounded : Bounded p s budget) (h : Reached p s budget r) :
    r.forward.2.position = min (r.position + 1) (horizon p s budget) := by
  obtain @⟨n, k, hk, hn⟩ := h
  by_cases hlt : k < horizon p s budget
  · rw [hbounded.forward_of_lt hk hlt]
    exact (Nat.min_eq_left hlt).symm
  · obtain rfl : n = horizon p s budget := by omega
    obtain rfl : k = horizon p s budget := by omega
    rw [hbounded.forward_horizon]
    exact (Nat.min_eq_right (Nat.le_succ _)).symm

theorem position_back (h : Reached p s budget r) : r.back.2.position = r.position - 1 := by
  obtain @⟨n, k, hk, hn⟩ := h
  cases k with
  | zero => rfl
  | succ k =>
    rw [back_ofSteps_succ hk]
    rfl

theorem position_rewind (h : Reached p s budget r) : r.rewind.2.position = 0 := by
  obtain ⟨hk, hn⟩ := h
  rw [rewind_ofSteps]
  rfl

theorem position_toEnd (hbounded : Bounded p s budget) (h : Reached p s budget r) :
    r.toEnd.2.position = horizon p s budget := by
  obtain ⟨hk, hn⟩ := h
  by_cases hend : p.lastStep s < Archive.room p budget
  · rw [hbounded.toEnd_of_lt hk hn hend]
    exact (Bounded.horizon_eq_lastStep hend).symm
  · rw [hbounded.toEnd_of_not_lt hk hn hend]
    rfl

theorem position_toBreakpoint (hbounded : Bounded p s budget) (h : Reached p s budget r) :
    r.toBreakpoint.2.position = (p.track s budget).resume r.position := by
  obtain @⟨n, k, hk, hn⟩ := h
  rcases (p.track s budget).next_or_none k with ⟨q, hkq, hq, hrests, hgoes⟩ | hgoes
  · rw [hbounded.toBreakpoint_of_rests hk hn hkq hq hgoes hrests]
    exact (Track.resume_eq hkq hq hgoes hrests).symm
  · rw [hbounded.toBreakpoint_of_goes hk hn hgoes hbounded.forward_horizon]
    exact (Track.resume_eq_last hgoes).symm

theorem position_iterate_forward (hbounded : Bounded p s budget) (h : Reached p s budget r)
    (times : Nat) :
    ((fun r => r.forward.2)^[times] r).position =
      min (r.position + times) (horizon p s budget) := by
  induction times generalizing r with
  | zero => exact (Nat.min_eq_left h.position_le).symm
  | succ times ih =>
    rw [Function.iterate_succ_apply, ih (h.single hbounded .forward), h.position_forward hbounded]
    omega

theorem position_forwardTimes (hbounded : Bounded p s budget) (h : Reached p s budget r)
    (times : Nat) :
    (forwardTimes times r).2.position = min (r.position + times) (horizon p s budget) := by
  obtain ⟨n, hrecords⟩ := h.records hbounded
  rw [hrecords.forwardTimes_eq_iterate hbounded.sound, h.position_iterate_forward hbounded]

/-- A key leads to the position that the track says. -/
theorem position_move (hbounded : Bounded p s budget) (h : Reached p s budget r) (key : Key) :
    (key.move r).position = (p.track s budget).press r.position key := by
  cases key with
  | char c =>
    rw [Key.move, Key.moveChar, Track.press]
    split
    · exact h.position_toBreakpoint hbounded
    · split
      · exact h.position_forwardTimes hbounded _
      · rfl
  | left => exact h.position_back
  | right => exact h.position_forward hbounded
  | enter => exact h.position_toEnd hbounded
  | backspace => exact h.position_rewind
  | up | down | tab | escape | other => rfl

/-- What is on show is the state of the run after so many steps. -/
theorem on_show (h : Reached p s budget r) :
    r.shown = Frame.capture p (p.steps r.position s) ∧
      r.output = (p.steps r.position s).spool.bytes := by
  obtain ⟨hk, hn⟩ := h
  exact ⟨rfl, output_ofSteps hk⟩

end Reached

end Recording

namespace Viewer

open Recording (Bounded Reached)

variable {p : Program} {s : State} {budget : Nat} {v : Viewer}

/-! ## Where events lead -/

/-- An event leads to the position that the track says, and the recording stays within the horizon. -/
theorem reached_respond (hbounded : Bounded p s budget) (h : Reached p s budget v.recording)
    (event : Event) :
    Reached p s budget (v.respond event).recording ∧
      (v.respond event).recording.position =
        (p.track s budget).respond v.recording.position event := by
  cases event with
  | render width height => exact ⟨h, rfl⟩
  | press key =>
    obtain ⟨path, hpath⟩ := exists_leads_move v.recording key
    rw [respond, recording_press]
    exact ⟨h.leads hbounded hpath, h.position_move hbounded key⟩

theorem reached_foldl_respond (hbounded : Bounded p s budget) (h : Reached p s budget v.recording)
    (events : List Event) :
    Reached p s budget (events.foldl respond v).recording ∧
      (events.foldl respond v).recording.position =
        events.foldl (p.track s budget).respond v.recording.position := by
  induction events generalizing v with
  | nil => exact ⟨h, rfl⟩
  | cons event events ih =>
    obtain ⟨hnext, hposition⟩ := reached_respond hbounded h event
    rw [List.foldl_cons, List.foldl_cons, ← hposition]
    exact ih hnext

/-- Pressing the key for a move forward again and again makes that move again and again. -/
theorem recording_iterate_press_right (times : Nat) (v : Viewer) :
    ((fun v => v.press .right)^[times] v).recording =
      (fun r => r.forward.2)^[times] v.recording := by
  induction times generalizing v with
  | zero => rfl
  | succ times ih =>
    rw [Function.iterate_succ_apply, Function.iterate_succ_apply, ih, recording_press]
    rfl

/-- Whatever keys are pressed and screens are drawn, of a run from any state that a program reaches, the
viewer is where a cursor would be on a line of positions. The line ends where the run stops, or where
the budget has no room for more frames, and a position rests where the run has stopped or a breakpoint is
next. The frame and the output on show are those of the run after so many steps. So the keys that do not
move the cursor may be left out anywhere, as drawing may, and a digit is as many moves to the right. -/
theorem position_of_events {p : Program} {m budget : Nat} {first : Recording}
    (hfirst : Recording.start p (p.steps m p.start) budget = .ok first)
    (hcounted : min (p.lastStep (p.steps m p.start) + 1) (budget / (72 + p.settings.tapeSize) + 1) *
      (72 + p.settings.tapeSize) < UInt64.size) :
    let s := p.steps m p.start
    let track : Track :=
      { last := min (p.lastStep s) (budget / (72 + p.settings.tapeSize) - 1)
        rests := fun q =>
          p.halted (p.steps q s) || p.source[(p.steps q s).ip]? == some breakpoint }
    let after (events : List Event) : Viewer := events.foldl respond { recording := first }
    (∀ events,
      let r := (after events).recording
      let position := events.foldl track.respond 0
      r.position = position ∧ r.shown = Frame.capture p (p.steps position s) ∧
        r.output = (p.steps position s).spool.bytes) ∧
    (∀ front event back, event.isIdle = true →
      let r := (after (front ++ event :: back)).recording
      let r' := (after (front ++ back)).recording
      r.position = r'.position ∧ r.shown = r'.shown ∧ r.output = r'.output) ∧
    (∀ events c, '1' ≤ c → c ≤ '9' →
      ((after events).press (.char c)).recording =
        ((fun v => v.press .right)^[c.toNat - '0'.toNat] (after events)).recording) := by
  intro s track after
  have hs := p.sound_steps m
  have hbounded : Bounded p s budget := Recording.bounded_of_start hs hcounted hfirst
  have hzero : first.position = 0 := (Recording.records_start hs hfirst).2
  have hafter (events : List Event) : Reached p s budget (after events).recording ∧
      (after events).recording.position = events.foldl track.respond 0 := by
    rw [← hzero]
    exact reached_foldl_respond hbounded (Recording.reached_start hs hfirst) events
  refine ⟨fun events => ?_, fun front event back hidle => ?_, fun events c hlow hhigh => ?_⟩
  · obtain ⟨hreached, hposition⟩ := hafter events
    rw [← hposition]
    exact ⟨rfl, hreached.on_show⟩
  · obtain ⟨hreached, hposition⟩ := hafter (front ++ event :: back)
    obtain ⟨hreached', hposition'⟩ := hafter (front ++ back)
    rw [List.foldl_append, List.foldl_cons, Track.respond_of_isIdle hidle, ← List.foldl_append,
      ← hposition'] at hposition
    obtain ⟨hshown, houtput⟩ := hreached.on_show
    obtain ⟨hshown', houtput'⟩ := hreached'.on_show
    rw [hposition] at hshown houtput
    exact ⟨hposition, hshown.trans hshown'.symm, houtput.trans houtput'.symm⟩
  · obtain ⟨n, hrecords⟩ := (hafter events).1.records hbounded
    have hother : ¬ (c = 'c' ∨ c = 'C') := by
      rintro (rfl | rfl)
      · exact absurd hhigh (by decide)
      · exact absurd hhigh (by decide)
    rw [recording_press, Key.move, Key.moveChar, if_neg hother, if_pos ⟨hlow, hhigh⟩,
      hrecords.forwardTimes_eq_iterate hs, recording_iterate_press_right]

/-- The run of `+!+` makes three steps, and a budget of 220 bytes has room for three frames of 73. So
resuming stops at the breakpoint, and nine steps from there go one position further. -/
theorem position_of_events_of_small_budget :
    ∃ p first,
      Program.load { tapeSize := 1, instructionLimit := 9 } #[0x2b, 0x21, 0x2b] #[] = .ok p ∧
      Recording.start p (p.steps 0 p.start) 220 = .ok first ∧
      (([.press (.char 'c')] : List Event).foldl respond
        { recording := first }).recording.position = 1 ∧
      (([.press (.char 'c'), .render 80 24, .press (.char '9')] : List Event).foldl respond
        { recording := first }).recording.position = 2 := by
  let p : Program := ⟨{ tapeSize := 1, instructionLimit := 9 }, #[0x2b, 0x21, 0x2b], #[],
    ⟨#[], #[none, none, none], #[none, none, none]⟩, rfl, rfl, rfl⟩
  have hfits : Archive.Fits p 220 1 := by decide
  have hfirst := Recording.start_of_fits (p.sound_steps 0) hfits
  have hlast : p.lastStep (p.steps 0 p.start) = 3 :=
    Nat.le_antisymm (Program.halted_steps_iff.1 (by decide +kernel))
      (show 2 < _ from Program.halted_steps_eq_false_iff.1 (by decide +kernel))
  have hcounted : min (p.lastStep (p.steps 0 p.start) + 1) (220 / (72 + p.settings.tapeSize) + 1) *
      (72 + p.settings.tapeSize) < UInt64.size := by
    rw [hlast]
    decide
  have hposition := (position_of_events hfirst hcounted).1
  simp only [hlast] at hposition
  refine ⟨p, _, rfl, hfirst, ?_, ?_⟩
  · exact (hposition [.press (.char 'c')]).1.trans (by decide +kernel)
  · exact (hposition [.press (.char 'c'), .render 80 24, .press (.char '9')]).1.trans
      (by decide +kernel)

end Viewer

end TapeDebugger
