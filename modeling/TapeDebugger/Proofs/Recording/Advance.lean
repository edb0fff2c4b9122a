-- SUMMARY: How far a recording can go forward, and where the moves end that go forward repeatedly.
import TapeDebugger.Proofs.Recording.Faithful

/-!
# Going forward

A recording goes forward up to its horizon: where its run stops, or where the budget has no room for
one more frame, whichever comes first. Before the horizon every move forward succeeds, and at the
horizon every one fails and changes nothing (`Bounded.forward_of_lt`, `Bounded.forward_horizon`).
`Loops` is the loop behind the repeated moves, without a bound on its turns. Running to the end makes
so many turns that the bound is never met (`Loops.forwardUntil_eq`), and ends at the horizon: with the
result of the run if that is where the run stops, and with a fault otherwise (`toEnd_of_walk`).
-/

namespace TapeDebugger

/-! ## Room for frames -/

/-- The number of frames that a budget has room for. -/
def Archive.room (p : Program) (budget : Nat) : Nat := budget / p.frameSize

theorem Program.frameSize_pos (p : Program) : 0 < p.frameSize := by
  unfold frameSize
  omega

/-- As long as their bytes are counted in one word, frames fit up to the room that there is. -/
theorem Archive.fits_iff_le_room {p : Program} {budget count : Nat}
    (h : count * p.frameSize < UInt64.size) : Fits p budget count ↔ count ≤ room p budget := by
  have hword : count * p.frameSize ≤ Word.last := Nat.le_pred_of_lt h
  rw [Fits, and_iff_right hword, room, Nat.le_div_iff_mul_le p.frameSize_pos]

namespace Recording

open Archive (Fits room)

/-! ## The horizon -/

/-- The last position that a recording can get to. -/
def horizon (p : Program) (s : State) (budget : Nat) : Nat :=
  min (p.lastStep s) (room p budget - 1)

/-- The bytes of all frames that a recording may ever ask for are counted in one word. -/
def Counted (p : Program) (s : State) (budget : Nat) : Prop :=
  min (p.lastStep s + 1) (room p budget + 1) * p.frameSize < UInt64.size

/-- A recording of a run from some state can be made: at least one frame fits, and counting the bytes
of the frames never leaves the word. -/
structure Bounded (p : Program) (s : State) (budget : Nat) : Prop where
  sound : p.Sound s
  counted : Counted p s budget
  room_pos : 0 < room p budget

/-- A recording that has gone no further than to its horizon. -/
inductive Reached (p : Program) (s : State) (budget : Nat) : Recording → Prop where
  | intro {n k : Nat} (hk : k ≤ n) (hn : n ≤ horizon p s budget) :
      Reached p s budget (ofSteps p s budget n k)

variable {p : Program} {s : State} {budget n k : Nat} {r : Recording}

theorem Counted.fits_iff (h : Counted p s budget) {count : Nat} (hlast : count ≤ p.lastStep s + 1)
    (hroom : count ≤ room p budget + 1) : Fits p budget count ↔ count ≤ room p budget := by
  apply Archive.fits_iff_le_room
  exact Nat.lt_of_le_of_lt (Nat.mul_le_mul_right _ (Nat.le_min.2 ⟨hlast, hroom⟩)) h

theorem bounded_of_start (hs : p.Sound s) (hcounted : Counted p s budget)
    (h : start p s budget = .ok r) : Bounded p s budget := by
  have hfits : Fits p budget 1 := by
    by_contra hnot
    rw [start_of_not_fits hs hnot] at h
    cases h
  exact ⟨hs, hcounted, (hcounted.fits_iff (Nat.le_add_left 1 _) (Nat.le_add_left 1 _)).1 hfits⟩

namespace Bounded

/-- Before the horizon a move forward succeeds, and records a frame if there is none yet. -/
theorem forward_of_lt (h : Bounded p s budget) (hk : k ≤ n) (hlt : k < horizon p s budget) :
    (ofSteps p s budget n k).forward = (.ok (), ofSteps p s budget (max n (k + 1)) (k + 1)) := by
  obtain hbefore | rfl := Nat.lt_or_eq_of_le hk
  · rw [forward_ofSteps_of_lt hbefore, Nat.max_eq_left hbefore]
  · rw [horizon, Nat.lt_min] at hlt
    have hfits : Fits p budget (k + 2) := (h.counted.fits_iff (by omega) (by omega)).2 (by omega)
    rw [forward_ofSteps_of_fits h.sound (Program.halted_steps_eq_false_iff.2 hlt.1) hfits,
      Nat.max_eq_right (Nat.le_succ k)]

/-- At the horizon a move forward fails: there either is no next state, or no room for it. -/
theorem forward_horizon (h : Bounded p s budget) :
    (ofSteps p s budget (horizon p s budget) (horizon p s budget)).forward =
      (.error (if p.lastStep s < room p budget then .runEnded
          else .budgetExhausted (room p budget * p.frameSize) budget),
        ofSteps p s budget (horizon p s budget) (horizon p s budget)) := by
  have hroom := h.room_pos
  by_cases hend : p.lastStep s < room p budget
  · have hhorizon : horizon p s budget = p.lastStep s := by
      rw [horizon]
      omega
    rw [if_pos hend, hhorizon]
    exact forward_ofSteps_of_halted (p.halted_steps_lastStep s)
  · have hhorizon : horizon p s budget = room p budget - 1 := by
      rw [horizon]
      omega
    have hgoes : p.halted (p.steps (room p budget - 1) s) = false :=
      Program.halted_steps_eq_false_iff.2 (by omega)
    have hfits : ¬ Fits p budget (room p budget - 1 + 2) := by
      rw [h.counted.fits_iff (by omega) (by omega)]
      omega
    have hword : (room p budget + 1) * p.frameSize ≤ Word.last := by
      refine Nat.le_pred_of_lt (Nat.lt_of_le_of_lt (Nat.mul_le_mul_right _ ?_) h.counted)
      omega
    rw [if_neg hend, hhorizon, forward_ofSteps_of_not_fits h.sound hgoes hfits,
      Nat.sub_add_cancel hroom, Archive.refusal, if_pos hword]

end Bounded

theorem reached_start (hs : p.Sound s) (h : start p s budget = .ok r) : Reached p s budget r := by
  by_cases hfits : Fits p budget 1
  · rw [start_of_fits hs hfits] at h
    cases h
    exact .intro (Nat.le_refl 0) (Nat.zero_le _)
  · rw [start_of_not_fits hs hfits] at h
    cases h

/-- Single moves stay within the horizon. -/
theorem Reached.single {next : Recording} (hbounded : Bounded p s budget) (h : Reached p s budget r)
    (hmove : Single r next) : Reached p s budget next := by
  cases h with
  | @intro n k hk hn =>
    cases hmove with
    | forward =>
      by_cases hlt : k < horizon p s budget
      · rw [hbounded.forward_of_lt hk hlt]
        exact .intro (Nat.le_max_right _ _) (Nat.max_le.2 ⟨hn, hlt⟩)
      · obtain rfl : n = horizon p s budget := by omega
        obtain rfl : k = horizon p s budget := by omega
        rw [hbounded.forward_horizon]
        exact .intro hk hn
    | back =>
      cases k with
      | zero =>
        rw [back_ofSteps_zero]
        exact .intro hk hn
      | succ k =>
        rw [back_ofSteps_succ hk]
        exact .intro (Nat.le_of_lt hk) hn
    | rewind =>
      rw [rewind_ofSteps]
      exact .intro (Nat.zero_le n) hn

theorem Reached.leads {last : Recording} {path : List Recording} (hbounded : Bounded p s budget)
    (h : Reached p s budget r) (hleads : Leads r path last) : Reached p s budget last := by
  induction hleads with
  | stay => exact h
  | move hmove _ ih => exact ih (h.single hbounded hmove)

/-- Whatever moves are made, a recording stays within its horizon. -/
theorem reached_walk {first last : Recording} {actions : List Action} (hs : p.Sound s)
    (hbounded : Bounded p s budget) (hfirst : start p s budget = .ok first)
    (hlast : first.walk actions = last) : Reached p s budget last := by
  rw [← hlast]
  exact (reached_start hs hfirst).leads hbounded (leads_trail first actions)

theorem Reached.position_le (h : Reached p s budget r) : r.position ≤ horizon p s budget := by
  obtain ⟨hk, hn⟩ := h
  exact Nat.le_trans hk hn

theorem Reached.position_le_lastStep (h : Reached p s budget r) : r.position ≤ p.lastStep s :=
  Nat.le_trans h.position_le (Nat.min_le_left _ _)

/-! ## Repeated moves as loops -/

/-- The loop that goes forward until a condition holds or a move fails, with the number of moves that
it tries. The count goes up with every move that succeeds. -/
inductive Loops (stop : Recording → Bool) : Nat → Nat → Recording → Move Nat → Prop where
  | stopped {count : Nat} {r : Recording} (hstop : stop r = true) :
      Loops stop 0 count r (.ok count, r)
  | moved {moves count : Nat} {r next : Recording} {outcome : Move Nat} (hstop : stop r = false)
      (hmove : r.forward = (.ok (), next)) (hrest : Loops stop moves (count + 1) next outcome) :
      Loops stop (moves + 1) count r outcome
  | failed {count : Nat} {r last : Recording} {fault : Fault} (hstop : stop r = false)
      (hmove : r.forward = (.error fault, last)) : Loops stop 1 count r (.error fault, last)

/-- With enough turns allowed, the bound on them is not met. -/
theorem Loops.forwardUntil_eq {stop : Recording → Bool} {moves count turns : Nat}
    {outcome : Move Nat} (h : Loops stop moves count r outcome) (hturns : moves ≤ turns) :
    forwardUntil stop turns count r = outcome := by
  induction h generalizing turns with
  | stopped hstop =>
    cases turns with
    | zero => rfl
    | succ turns => rw [forwardUntil, if_pos hstop]
  | moved hstop hmove _ ih =>
    cases turns with
    | zero => exact absurd hturns (Nat.not_succ_le_zero _)
    | succ turns =>
      rw [forwardUntil, if_neg (by simp [hstop]), hmove]
      exact ih (Nat.le_of_succ_le_succ hturns)
  | failed hstop hmove =>
    cases turns with
    | zero => exact absurd hturns (Nat.not_succ_le_zero _)
    | succ turns => rw [forwardUntil, if_neg (by simp [hstop]), hmove]

/-- A loop that meets its condition within the horizon ends at the first position where it does. -/
theorem Bounded.loops_of_stop (h : Bounded p s budget) {stop : Recording → Bool} {q : Nat}
    (count : Nat) (hkn : k ≤ n) (hkq : k ≤ q) (hq : q ≤ horizon p s budget)
    (hgoes : ∀ n j, k ≤ j → j < q → stop (ofSteps p s budget n j) = false)
    (hstop : ∀ n, stop (ofSteps p s budget n q) = true) :
    Loops stop (q - k) count (ofSteps p s budget n k)
      (.ok (count + (q - k)), ofSteps p s budget (max n q) q) := by
  induction hd : q - k generalizing n k count with
  | zero =>
    obtain rfl : k = q := by omega
    rw [Nat.max_eq_left hkn]
    exact .stopped (hstop n)
  | succ d ih =>
    have hlt : k < q := by omega
    have hrest : Loops stop d (count + 1) (ofSteps p s budget (max n (k + 1)) (k + 1))
        (.ok (count + 1 + d), ofSteps p s budget (max (max n (k + 1)) q) q) :=
      ih (count + 1) (Nat.le_max_right _ _) hlt (fun n j hj => hgoes n j (Nat.le_of_succ_le hj))
        (by omega)
    rw [Nat.max_assoc, Nat.max_eq_right hlt, Nat.add_right_comm, Nat.add_assoc] at hrest
    exact .moved (hgoes n k (Nat.le_refl k) hlt) (h.forward_of_lt hkn (by omega)) hrest

/-- A loop that does not meet its condition within the horizon fails there. -/
theorem Bounded.loops_of_goes (h : Bounded p s budget) {stop : Recording → Bool} {count : Nat}
    {fault : Fault} (hkn : k ≤ n) (hn : n ≤ horizon p s budget)
    (hgoes : ∀ n j, k ≤ j → j ≤ horizon p s budget → stop (ofSteps p s budget n j) = false)
    (hfails : (ofSteps p s budget (horizon p s budget) (horizon p s budget)).forward =
      (.error fault, ofSteps p s budget (horizon p s budget) (horizon p s budget))) :
    Loops stop (horizon p s budget - k + 1) count (ofSteps p s budget n k)
      (.error fault, ofSteps p s budget (horizon p s budget) (horizon p s budget)) := by
  induction hd : horizon p s budget - k generalizing n k count with
  | zero =>
    obtain rfl : k = horizon p s budget := by omega
    obtain rfl : n = horizon p s budget := by omega
    exact .failed (hgoes _ _ (Nat.le_refl _) (Nat.le_refl _)) hfails
  | succ d ih =>
    have hlt : k < horizon p s budget := by omega
    have hrest : Loops stop (d + 1) (count + 1) (ofSteps p s budget (max n (k + 1)) (k + 1))
        (.error fault, ofSteps p s budget (horizon p s budget) (horizon p s budget)) :=
      ih (Nat.le_max_right _ _) (by omega) (fun n j hj => hgoes n j (Nat.le_of_succ_le hj)) (by omega)
    exact .moved (hgoes n k (Nat.le_refl k) (Nat.le_of_lt hlt)) (h.forward_of_lt hkn hlt) hrest

/-! ## Running to the end -/

/-- The moves allowed suffice to get to the last state of the run. -/
theorem lastStep_sub_le_headroom (hkn : k ≤ n) (hn : n ≤ p.lastStep s) :
    p.lastStep s - k ≤ (ofSteps p s budget n k).headroom := by
  have hallowance := p.lastStep_le_allowance (p.steps n s)
  rw [Program.lastStep_steps hn] at hallowance
  rw [headroom, length_ofSteps, position_ofSteps]
  have hlive : (ofSteps p s budget n k).program.allowance (ofSteps p s budget n k).live =
    p.allowance (p.steps n s) := rfl
  omega

theorem atEnd_ofSteps_eq_false {j : Nat} (hj : j < p.lastStep s) :
    (ofSteps p s budget n j).atEnd = false :=
  Program.halted_steps_eq_false_iff.2 hj

theorem atEnd_ofSteps_lastStep : (ofSteps p s budget n (p.lastStep s)).atEnd = true :=
  p.halted_steps_lastStep s

namespace Bounded

theorem horizon_eq_lastStep (hend : p.lastStep s < room p budget) :
    horizon p s budget = p.lastStep s := by
  rw [horizon]
  omega

theorem horizon_lt_lastStep (h : Bounded p s budget) (hend : ¬ p.lastStep s < room p budget) :
    horizon p s budget + 1 = room p budget ∧ horizon p s budget < p.lastStep s := by
  have := h.room_pos
  rw [horizon]
  omega

/-- With room for all frames of the run, the loop to its end gets there. -/
theorem loops_atEnd_of_lt (h : Bounded p s budget) (hkn : k ≤ n) (hn : n ≤ horizon p s budget)
    (hend : p.lastStep s < room p budget) :
    Loops atEnd (p.lastStep s - k) 0 (ofSteps p s budget n k)
      (.ok (p.lastStep s - k), ofSteps p s budget (p.lastStep s) (p.lastStep s)) := by
  have hhorizon := horizon_eq_lastStep hend
  have hlast : n ≤ p.lastStep s := hhorizon ▸ hn
  have hloops := h.loops_of_stop 0 hkn (Nat.le_trans hkn hlast) (Nat.le_of_eq hhorizon.symm)
    (fun n j _ hj => atEnd_ofSteps_eq_false (n := n) hj) (fun n => atEnd_ofSteps_lastStep (n := n))
  rw [Nat.zero_add, Nat.max_eq_right hlast] at hloops
  exact hloops

/-- Without room for all frames of the run, the loop to its end fails once there is none left. -/
theorem loops_atEnd_of_not_lt (h : Bounded p s budget) (hkn : k ≤ n) (hn : n ≤ horizon p s budget)
    (hend : ¬ p.lastStep s < room p budget) :
    Loops atEnd (horizon p s budget - k + 1) 0 (ofSteps p s budget n k)
      (.error (.budgetExhausted (room p budget * p.frameSize) budget),
        ofSteps p s budget (horizon p s budget) (horizon p s budget)) := by
  have hbefore := (h.horizon_lt_lastStep hend).2
  have hfails := h.forward_horizon
  rw [if_neg hend] at hfails
  exact h.loops_of_goes hkn hn
    (fun n j _ hj => atEnd_ofSteps_eq_false (n := n) (Nat.lt_of_le_of_lt hj hbefore)) hfails

theorem toEnd_of_lt (h : Bounded p s budget) (hkn : k ≤ n) (hn : n ≤ horizon p s budget)
    (hend : p.lastStep s < room p budget) :
    (ofSteps p s budget n k).toEnd =
      (.ok (p.lastStep s - k), ofSteps p s budget (p.lastStep s) (p.lastStep s)) := by
  have hlast : n ≤ p.lastStep s := Nat.le_trans hn (Nat.min_le_left _ _)
  exact (h.loops_atEnd_of_lt hkn hn hend).forwardUntil_eq (lastStep_sub_le_headroom hkn hlast)

theorem toEnd_of_not_lt (h : Bounded p s budget) (hkn : k ≤ n) (hn : n ≤ horizon p s budget)
    (hend : ¬ p.lastStep s < room p budget) :
    (ofSteps p s budget n k).toEnd =
      (.error (.budgetExhausted (room p budget * p.frameSize) budget),
        ofSteps p s budget (horizon p s budget) (horizon p s budget)) := by
  have hbefore := (h.horizon_lt_lastStep hend).2
  have hlast : n ≤ p.lastStep s := Nat.le_trans hn (Nat.le_of_lt hbefore)
  apply (h.loops_atEnd_of_not_lt hkn hn hend).forwardUntil_eq
  have henough : p.lastStep s - k ≤ (ofSteps p s budget n k).headroom :=
    lastStep_sub_le_headroom hkn hlast
  omega

end Bounded

/-- The frame of a state in which a run has stopped shows the result of the run. -/
theorem shown_ofSteps_lastStep :
    (ofSteps p s budget n (p.lastStep s)).shown.halt = some (p.finish s).halt ∧
      (ofSteps p s budget n (p.lastStep s)).shown.executed = (p.finish s).executed := by
  have hrun := p.run_eq_steps_lastStep s
  constructor
  · have hhalt : p.halt? (p.run s) = some (p.finish s).halt := Program.halt_finish_iff.1 rfl
    rw [hrun] at hhalt
    exact hhalt
  · exact congrArg State.executed hrun.symm

/-- Running to the end ends, wherever moves on a recording have led, of a run from any state that a
program reaches. It succeeds exactly when the budget has room for the frames of the whole run. Then
it counts the moves from here to the last state, and shows the result of running without a recording,
from the state recorded first or from the start. Otherwise it fails with as many frames as there is
room for, the last of them on show, and fails in the same way from there. -/
theorem toEnd_of_walk {p : Program} {m budget : Nat} {first last : Recording} {actions : List Action}
    (hfirst : start p (p.steps m p.start) budget = .ok first) (hlast : first.walk actions = last)
    (hcounted : min (p.lastStep (p.steps m p.start) + 1) (budget / (72 + p.settings.tapeSize) + 1) *
      (72 + p.settings.tapeSize) < UInt64.size) :
    let s := p.steps m p.start
    let frames := budget / (72 + p.settings.tapeSize)
    (∃ moves, Loops atEnd moves 0 last last.toEnd) ∧
    last.position ≤ p.lastStep s ∧
    ((∃ count, last.toEnd.1 = .ok count) ↔ p.lastStep s + 1 ≤ frames) ∧
    (p.lastStep s + 1 ≤ frames →
      last.toEnd.1 = .ok (p.lastStep s - last.position) ∧
      last.toEnd.2.position = p.lastStep s ∧
      last.toEnd.2.shown.halt = some (p.finish s).halt ∧
      last.toEnd.2.shown.executed = (p.finish s).executed ∧
      last.toEnd.2.output = (p.finish s).output ∧
      interpret p.settings p.source p.input = .ok (p.finish s)) ∧
    (frames < p.lastStep s + 1 →
      last.toEnd.1 = .error (.budgetExhausted (frames * (72 + p.settings.tapeSize)) budget) ∧
      last.toEnd.2.position + 1 = frames ∧
      last.toEnd.2.length = frames ∧
      last.toEnd.2.toEnd = last.toEnd) := by
  intro s frames
  have hs := p.sound_steps m
  have hbounded : Bounded p s budget := bounded_of_start hs hcounted hfirst
  obtain @⟨n, k, hkn, hn⟩ := reached_walk hs hbounded hfirst hlast
  by_cases hend : p.lastStep s < frames
  · have hloops := hbounded.loops_atEnd_of_lt hkn hn hend
    have hlast : n ≤ p.lastStep s := Nat.le_trans hn (Nat.min_le_left _ _)
    rw [hbounded.toEnd_of_lt hkn hn hend]
    refine ⟨⟨_, hloops⟩, Nat.le_trans hkn hlast, ⟨fun _ => hend, fun _ => ⟨_, rfl⟩⟩,
      fun _ => ⟨rfl, rfl, shown_ofSteps_lastStep.1, shown_ofSteps_lastStep.2, ?_, ?_⟩,
      fun hover => absurd hend (Nat.not_lt.2 (Nat.le_of_lt_succ hover))⟩
    · rw [output_ofSteps (Nat.le_refl _), ← p.run_eq_steps_lastStep]
      rfl
    · rw [Program.interpret_self, Program.finish_congr (p.run_steps m p.start)]
  · obtain ⟨hroom, hbefore⟩ := hbounded.horizon_lt_lastStep hend
    have hloops := hbounded.loops_atEnd_of_not_lt hkn hn hend
    rw [hbounded.toEnd_of_not_lt hkn hn hend]
    refine ⟨⟨_, hloops⟩, Nat.le_trans hkn (Nat.le_trans hn (Nat.le_of_lt hbefore)),
      ⟨fun ⟨_, hok⟩ => (nomatch hok), fun hfits => absurd hfits hend⟩,
      fun hfits => absurd hfits hend, fun _ => ⟨rfl, hroom, ?_, ?_⟩⟩
    · exact length_ofSteps.trans hroom
    · exact hbounded.toEnd_of_not_lt (Nat.le_refl _) (Nat.le_refl _) hend

/-- The run of `+.+` makes two steps after its first, and a budget of 150 bytes has room for two
frames of 73. So running to the end, even after a move back, fails one step before the end. -/
theorem toEnd_of_walk_of_small_budget :
    ∃ p first,
      Program.load { tapeSize := 1, instructionLimit := 5 } #[0x2b, 0x2e, 0x2b] #[] = .ok p ∧
      start p (p.steps 1 p.start) 150 = .ok first ∧
      (first.walk [.forward, .back]).toEnd.1 = .error (.budgetExhausted 146 150) ∧
      (first.walk [.forward, .back]).toEnd.2.length = 2 ∧
      (first.walk [.forward, .back]).toEnd.2.toEnd = (first.walk [.forward, .back]).toEnd := by
  have hfits : Archive.Fits ⟨{ tapeSize := 1, instructionLimit := 5 }, #[0x2b, 0x2e, 0x2b], #[],
    ⟨#[], #[none, none, none], #[none, none, none]⟩, rfl, rfl, rfl⟩ 150 1 := by decide
  have hfirst := start_of_fits (Program.sound_steps _ 1) hfits
  obtain ⟨-, -, -, -, hfails⟩ := toEnd_of_walk hfirst (rfl : walk _ [.forward, .back] = _)
    (Nat.lt_of_le_of_lt (Nat.mul_le_mul_right _ (Nat.min_le_right _ _)) (by decide))
  obtain ⟨hfault, -, hlength, hagain⟩ := hfails
    (Nat.lt_succ_of_le (show 1 < _ from Program.halted_steps_eq_false_iff.1 (by decide +kernel)))
  exact ⟨_, _, by rfl, hfirst, hfault, hlength, hagain⟩

end Recording

end TapeDebugger
