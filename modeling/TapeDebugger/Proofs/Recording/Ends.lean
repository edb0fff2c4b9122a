-- SUMMARY: Single moves succeed exactly up to the ends of a recording, undo each other, and change nothing when they fail.
import TapeDebugger.Proofs.Recording.Advance

/-!
# The ends of a recording

Going forward succeeds before the horizon and fails on it, going back succeeds except on the first
frame, and rewinding always does. Each of these is one lemma on a recording within its horizon. A move
that fails leaves the recording as it was (`forward_of_error`, `back_of_error`): the budget is looked at
before the live state makes its step, and the frame that is recorded then has the size that was looked
at, so that adding it does not fail (`exists_add?_of_room`).
-/

namespace TapeDebugger.Recording

open Archive (Fits room)

variable {p : Program} {s : State} {budget n k : Nat} {r next : Recording} {fault : Fault}

namespace Reached

-- ---------------------------------------------------------------------------
-- Going forward
-- ---------------------------------------------------------------------------

/-- All that a move forward can do within the horizon. -/
theorem forward_cases (hbounded : Bounded p s budget) (h : Reached p s budget r) :
    (r.position < horizon p s budget ∧
      ∃ next, r.forward = (.ok (), next) ∧ next.position = r.position + 1 ∧
        ∃ before, next.back = (.ok (), before) ∧ before.position = r.position ∧
          before.shown = r.shown ∧ before.output = r.output) ∨
    (r.position = horizon p s budget ∧
      r.forward = (.error (if p.lastStep s < room p budget then .runEnded
        else .budgetExhausted (room p budget * p.frameSize) budget), r)) := by
  obtain @⟨n, k, hk, hn⟩ := h
  -- the horizon bounds the newest frame, and that bounds the one on show, so at the horizon they are one
  obtain hlt | rfl := Nat.lt_or_eq_of_le (Nat.le_trans hk hn)
  · refine .inl ⟨hlt, _, hbounded.forward_of_lt hk hlt, rfl, _,
      back_ofSteps_succ (Nat.le_max_right n (k + 1)), rfl, rfl, ?_⟩
    rw [output_ofSteps hk, output_ofSteps (Nat.le_trans hk (Nat.le_max_left n (k + 1)))]
  · obtain rfl := Nat.le_antisymm hk hn
    exact .inr ⟨rfl, hbounded.forward_horizon⟩

/-- Going forward succeeds exactly before the horizon. -/
theorem forward_eq_ok_iff (hbounded : Bounded p s budget) (h : Reached p s budget r) :
    r.forward.1 = .ok () ↔ r.position < horizon p s budget := by
  rcases h.forward_cases hbounded with ⟨hlt, next, hok, -⟩ | ⟨hend, hfails⟩
  · exact iff_of_true (congrArg Prod.fst hok) hlt
  · rw [hfails, hend]
    exact iff_of_false (fun hok => by cases hok) (Nat.lt_irrefl _)

/-- After a move forward that succeeds, a move back shows the same as before. -/
theorem of_forward_ok (hbounded : Bounded p s budget) (h : Reached p s budget r)
    (hok : r.forward.1 = .ok ()) :
    r.forward.2.position = r.position + 1 ∧ r.forward.2.back.1 = .ok () ∧
      r.forward.2.back.2.position = r.position ∧ r.forward.2.back.2.shown = r.shown ∧
      r.forward.2.back.2.output = r.output := by
  rcases h.forward_cases hbounded with ⟨-, next, hmove, hposition, before, hback, hsame⟩ | ⟨-, hfails⟩
  · rw [hmove, hback]
    exact ⟨hposition, rfl, hsame⟩
  · rw [hfails] at hok
    cases hok

/-- Where the run has stopped, that is the reason given, with or without room for another frame. -/
theorem forward_of_lastStep (h : Reached p s budget r) (hend : r.position = p.lastStep s) :
    r.forward = (.error .runEnded, r) := by
  obtain @⟨n, k, hk, hn⟩ := h
  have hlast : n ≤ p.lastStep s := Nat.le_trans hn (Nat.min_le_left _ _)
  obtain rfl : k = p.lastStep s := hend
  obtain rfl : n = p.lastStep s := Nat.le_antisymm hlast hk
  exact forward_ofSteps_of_halted (p.halted_steps_lastStep s)

/-- Where the run goes on but the room for frames is used up, the budget is the reason given. -/
theorem forward_of_room (hbounded : Bounded p s budget) (h : Reached p s budget r)
    (hroom : r.position + 1 = room p budget) (hgoes : r.position < p.lastStep s) :
    r.forward = (.error (.budgetExhausted (room p budget * p.frameSize) budget), r) := by
  rcases h.forward_cases hbounded with ⟨hlt, -⟩ | ⟨-, hfails⟩
  · rw [horizon] at hlt
    omega
  · rwa [if_neg (by omega)] at hfails

/-- A move forward that fails changes nothing, and gives one of two reasons. -/
theorem forward_of_error (hbounded : Bounded p s budget) (h : Reached p s budget r)
    (hfails : r.forward.1 = .error fault) :
    r.forward.2 = r ∧
      (fault = .runEnded ∨ fault = .budgetExhausted (room p budget * p.frameSize) budget) := by
  rcases h.forward_cases hbounded with ⟨-, next, hok, -⟩ | ⟨-, hfault⟩
  · rw [hok] at hfails
    cases hfails
  · rw [hfault] at hfails ⊢
    cases hfails
    refine ⟨rfl, ?_⟩
    split
    · exact .inl rfl
    · exact .inr rfl

/-- With room for a frame as large as the one on show, adding the frame of the next step succeeds. -/
theorem exists_add?_of_room (hs : p.Sound s) (h : Reached p s budget r)
    (hgoes : r.program.halted r.live = false) (hroom : r.archive.hasRoom? r.shown.size = some true) :
    ∃ archive, r.archive.add? (.capture r.program (r.program.step r.live)) = some (.ok archive) := by
  obtain @⟨n, k, hk, hn⟩ := h
  -- all frames of a program are of one size, so the one looked at and the one added fit alike
  have hfits : Fits p budget (n + 2) := (hasRoom?_shown_iff hs).1 hroom
  have hstep : p.step (p.steps n s) = p.steps (n + 1) s := (p.steps_succ n s).symm
  refine ⟨.ofSteps p s budget (n + 2), ?_⟩
  simp only [ofSteps, hstep]
  exact Archive.add?_ofSteps hs hfits

-- ---------------------------------------------------------------------------
-- Going back
-- ---------------------------------------------------------------------------

/-- All that a move back can do: show the frame before, from which going forward leads here again, or
fail on the first frame and change nothing. -/
theorem back_cases (h : Reached p s budget r) :
    (0 < r.position ∧ ∃ before, r.back = (.ok (), before) ∧ before.position + 1 = r.position ∧
      before.forward = (.ok (), r)) ∨
    (r.position = 0 ∧ r.back = (.error .atStart, r)) := by
  obtain @⟨n, k, hk, hn⟩ := h
  cases k with
  | zero => exact .inr ⟨rfl, back_ofSteps_zero⟩
  | succ k => exact .inl ⟨Nat.succ_pos k, _, back_ofSteps_succ hk, rfl, forward_ofSteps_of_lt hk⟩

theorem back_eq_ok_iff (h : Reached p s budget r) : r.back.1 = .ok () ↔ 0 < r.position := by
  rcases h.back_cases with ⟨hpos, before, hok, -⟩ | ⟨hzero, hfails⟩
  · exact iff_of_true (congrArg Prod.fst hok) hpos
  · rw [hfails, hzero]
    exact iff_of_false (fun hok => by cases hok) (Nat.lt_irrefl 0)

/-- After a move back that succeeds, a move forward leads to the same recording again. -/
theorem of_back_ok (h : Reached p s budget r) (hok : r.back.1 = .ok ()) :
    r.back.2.position + 1 = r.position ∧ r.back.2.forward = (.ok (), r) := by
  rcases h.back_cases with ⟨-, before, hmove, hposition, hagain⟩ | ⟨-, hfails⟩
  · rw [hmove]
    exact ⟨hposition, hagain⟩
  · rw [hfails] at hok
    cases hok

theorem back_of_error (h : Reached p s budget r) (hfails : r.back.1 = .error fault) :
    r.back.2 = r ∧ fault = .atStart := by
  rcases h.back_cases with ⟨-, before, hok, -⟩ | ⟨-, hfault⟩
  · rw [hok] at hfails
    cases hfails
  · rw [hfault] at hfails ⊢
    cases hfails
    exact ⟨rfl, rfl⟩

theorem rewind_eq (h : Reached p s budget r) :
    r.rewind.1 = .ok () ∧ r.rewind.2.position = 0 := by
  obtain ⟨hk, hn⟩ := h
  rw [rewind_ofSteps]
  exact ⟨rfl, rfl⟩

-- ---------------------------------------------------------------------------
-- Moves made of single ones
-- ---------------------------------------------------------------------------

/-- No move forward misses a frame, for the next one is either recorded already or by the move. -/
theorem forward_ne_frameMissing (hbounded : Bounded p s budget) (h : Reached p s budget r) :
    r.forward.1 ≠ .error .frameMissing := by
  intro hfails
  obtain ⟨-, hended | hexhausted⟩ := h.forward_of_error hbounded hfails
  · exact absurd hended (by decide)
  · cases hexhausted

theorem forwardUntil_ne_frameMissing (hbounded : Bounded p s budget) (stop : Recording → Bool)
    (turns count : Nat) (h : Reached p s budget r) :
    (forwardUntil stop turns count r).1 ≠ .error .frameMissing := by
  induction turns generalizing count r with
  | zero =>
    intro hmissing
    cases hmissing
  | succ turns ih =>
    have hmove : Reached p s budget r.forward.2 := h.single hbounded .forward
    have hfault := h.forward_ne_frameMissing hbounded
    rw [forwardUntil]
    cases stop r with
    | true =>
      intro hmissing
      cases hmissing
    | false =>
      generalize r.forward = moved at hmove hfault ⊢
      obtain ⟨outcome, next⟩ := moved
      cases outcome with
      | ok => exact ih (count + 1) hmove
      | error fault => exact fun hmissing => hfault (congrArg Except.error (Except.error.inj hmissing))

theorem toBreakpoint_ne_frameMissing (hbounded : Bounded p s budget) (h : Reached p s budget r) :
    r.toBreakpoint.1 ≠ .error .frameMissing := by
  have hmove : Reached p s budget r.forward.2 := h.single hbounded .forward
  have hfault := h.forward_ne_frameMissing hbounded
  rw [toBreakpoint]
  generalize r.forward = moved at hmove hfault ⊢
  obtain ⟨outcome, next⟩ := moved
  cases outcome with
  | ok => exact hmove.forwardUntil_ne_frameMissing hbounded _ _ _
  | error fault => exact fun hmissing => hfault (congrArg Except.error (Except.error.inj hmissing))

end Reached

-- ---------------------------------------------------------------------------
-- All single moves
-- ---------------------------------------------------------------------------

/-- Wherever moves on a recording have led, of a run from any state that a program reaches, single moves
fail exactly at the ends. Going forward ends where the run stops, or where the budget has room for no more
frames; where both is so, the reason given is that the run has stopped. Going back ends on the first frame,
and rewinding never fails. No move misses a frame, and the frame of a step that has been made is always
added. A move that fails changes nothing at all. Going forward after a move back leads to the same recording
again, and going back after a move forward shows the same frame and output. -/
theorem moves_fail_at_ends {p : Program} {m budget : Nat} {first last : Recording}
    {actions : List Action} (hfirst : start p (p.steps m p.start) budget = .ok first)
    (hlast : first.walk actions = last)
    (hcounted : min (p.lastStep (p.steps m p.start) + 1) (budget / (72 + p.settings.tapeSize) + 1) *
      (72 + p.settings.tapeSize) < UInt64.size) :
    let n := p.lastStep (p.steps m p.start)
    let frames := budget / (72 + p.settings.tapeSize)
    (last.position ≤ min n (frames - 1) ∧
      (last.forward.1 = .ok () ↔ last.position < min n (frames - 1)) ∧
      (last.forward.1 = .ok () → last.forward.2.position = last.position + 1) ∧
      (last.position = n → last.forward.1 = .error .runEnded) ∧
      (last.position + 1 = frames → last.position < n →
        last.forward.1 = .error (.budgetExhausted (frames * (72 + p.settings.tapeSize)) budget))) ∧
    ((last.back.1 = .ok () ↔ 0 < last.position) ∧
      (last.back.1 = .ok () → last.back.2.position + 1 = last.position) ∧
      (last.position = 0 → last.back.1 = .error .atStart)) ∧
    (last.rewind.1 = .ok () ∧ last.rewind.2.position = 0) ∧
    (last.forward.1 ≠ .error .frameMissing ∧ last.back.1 ≠ .error .frameMissing ∧
      last.toEnd.1 ≠ .error .frameMissing ∧ last.toBreakpoint.1 ≠ .error .frameMissing ∧
      (last.program.halted last.live = false → last.archive.hasRoom? last.shown.size = some true →
        ∃ archive, last.archive.add? (.capture last.program (last.program.step last.live)) =
          some (.ok archive))) ∧
    (∀ fault,
      (last.forward.1 = .error fault → last.forward.2 = last) ∧
      (last.back.1 = .error fault → last.back.2 = last) ∧
      (last.rewind.1 = .error fault → last.rewind.2 = last)) ∧
    (last.back.1 = .ok () → last.back.2.forward = (.ok (), last)) ∧
    (last.forward.1 = .ok () →
      last.forward.2.back.1 = .ok () ∧ last.forward.2.back.2.position = last.position ∧
      last.forward.2.back.2.shown = last.shown ∧ last.forward.2.back.2.output = last.output) := by
  intro n frames
  have hs := p.sound_steps m
  have hbounded : Bounded p (p.steps m p.start) budget := bounded_of_start hs hcounted hfirst
  have h : Reached p (p.steps m p.start) budget last := reached_walk hs hbounded hfirst hlast
  have hlimit : last.position ≤ min n (frames - 1) := by
    rcases h.forward_cases hbounded with ⟨hlt, -⟩ | ⟨hend, -⟩
    · exact Nat.le_of_lt hlt
    · exact Nat.le_of_eq hend
  refine ⟨⟨hlimit, h.forward_eq_ok_iff hbounded, fun hok => (h.of_forward_ok hbounded hok).1,
      fun hend => congrArg Prod.fst (h.forward_of_lastStep hend),
      fun hroom hgoes => congrArg Prod.fst (h.forward_of_room hbounded hroom hgoes)⟩,
    ⟨h.back_eq_ok_iff, fun hok => (h.of_back_ok hok).1, fun hzero => ?_⟩, h.rewind_eq,
    ⟨h.forward_ne_frameMissing hbounded, fun hmissing => ?_,
      h.forwardUntil_ne_frameMissing hbounded _ _ _, h.toBreakpoint_ne_frameMissing hbounded,
      h.exists_add?_of_room hs⟩,
    fun fault => ⟨fun hfails => (h.forward_of_error hbounded hfails).1,
      fun hfails => (h.back_of_error hfails).1, fun hfails => ?_⟩,
    fun hok => (h.of_back_ok hok).2, fun hok => (h.of_forward_ok hbounded hok).2⟩
  · rcases h.back_cases with ⟨hpos, -⟩ | ⟨-, hfails⟩
    · exact absurd hpos (hzero ▸ Nat.lt_irrefl 0)
    · exact congrArg Prod.fst hfails
  · exact absurd (h.back_of_error hmissing).2 (by decide)
  · rw [h.rewind_eq.1] at hfails
    cases hfails

/-- From the second byte of `+.+` on, the run makes two steps, and a budget of 219 bytes has room for just
the three frames of 73. On the last of them the run has stopped and the budget is used up. -/
theorem moves_fail_at_ends_of_both :
    ∃ p first,
      Program.load { tapeSize := 1, instructionLimit := 5 } #[0x2b, 0x2e, 0x2b] #[] = .ok p ∧
      start p (p.steps 1 p.start) 219 = .ok first ∧
      (first.walk [.toEnd]).position + 1 = 219 / (72 + p.settings.tapeSize) ∧
      (first.walk [.toEnd]).forward = (.error .runEnded, first.walk [.toEnd]) ∧
      (first.walk [.toEnd]).back.2.forward = (.ok (), first.walk [.toEnd]) := by
  let p : Program := ⟨{ tapeSize := 1, instructionLimit := 5 }, #[0x2b, 0x2e, 0x2b], #[],
    ⟨#[], #[none, none, none], #[none, none, none]⟩, rfl, rfl, rfl⟩
  have hfits : Archive.Fits p 219 1 := by decide
  have hfirst := start_of_fits (p.sound_steps 1) hfits
  have hlast : p.lastStep (p.steps 1 p.start) = 2 :=
    Nat.le_antisymm (Program.halted_steps_iff.1 (by decide +kernel))
      (show 1 < _ from Program.halted_steps_eq_false_iff.1 (by decide +kernel))
  obtain ⟨⟨-, -, -, hended, -⟩, ⟨hback, -, -⟩, -, -, hatomic, hagain, -⟩ :=
    moves_fail_at_ends hfirst (rfl : walk _ [.toEnd] = _)
      (Nat.lt_of_le_of_lt (Nat.mul_le_mul_right _ (Nat.min_le_right _ _)) (by decide))
  have hfails := hended (hlast ▸ by decide +kernel)
  refine ⟨p, _, rfl, hfirst, by decide +kernel, ?_, ?_⟩
  · exact Prod.ext hfails ((hatomic _).1 hfails)
  · exact hagain (hback.2 (by decide +kernel))

end TapeDebugger.Recording
