-- SUMMARY: Every move forward uses up headroom, so the repeated moves end by themselves, and where going on to a breakpoint ends.
import TapeDebugger.Proofs.Recording.Advance

/-!
# Resuming

A move forward succeeds and uses up one unit of headroom, or it fails and changes nothing
(`Records.forward_cases`). So a loop of moves forward that stops at the latest where the run does ends
within the headroom, and the bound on its turns is not met (`Loops.moves_le_headroom`). Resuming is one
move forward and then such a loop. Within the horizon it ends on the next position that rests: where the
run has stopped or a breakpoint is next.
-/

namespace TapeDebugger

open Archive (Fits room)

/-- A step that is effective uses up one instruction of the allowance. -/
theorem Program.allowance_execute {p : Program} {s : State} (h : p.halted s = false) :
    p.allowance (p.execute s) + 1 = p.allowance s := by
  have := (halted_eq_false_iff.1 h).2.1
  rw [allowance, allowance, executed_execute]
  omega

/-- After so many steps the run has stopped, or a breakpoint is next. -/
def Program.restsAt (p : Program) (s : State) (n : Nat) : Bool :=
  p.halted (p.steps n s) || p.source[(p.steps n s).ip]? == some breakpoint

namespace Recording

variable {p : Program} {s : State} {budget n k : Nat} {r next : Recording}

/-! ## One move forward -/

/-- The frame on show is the last of its run, or points at a breakpoint. -/
def rests (r : Recording) : Bool := r.atEnd || r.atBreakpoint

theorem headroom_ofSteps :
    (ofSteps p s budget n k).headroom = n - k + p.allowance (p.steps n s) := by
  rw [headroom, length_ofSteps, position_ofSteps, Nat.add_sub_cancel]
  rfl

/-- What a move forward can do: go to the next position with one unit of headroom less, or fail and
change nothing. It does not go on from the end of a run, and only there it fails for that reason. -/
theorem Records.forward_cases (hs : p.Sound s) (h : Records p s budget n r) :
    (∃ next, r.forward = (.ok (), next) ∧ Records p s budget (max n next.position) next ∧
      r.atEnd = false ∧ next.position = r.position + 1 ∧ next.headroom + 1 = r.headroom) ∨
    ∃ fault, r.forward = (.error fault, r) ∧ (r.atEnd = false → 0 < r.headroom) ∧
      (fault = .runEnded ↔ r.atEnd = true) := by
  have hrecords := h.forward hs
  cases h with
  | @intro k hk hgoes hfits =>
    obtain hlt | rfl := Nat.lt_or_eq_of_le hk
    · rw [forward_ofSteps_of_lt hlt] at hrecords ⊢
      refine .inl ⟨_, rfl, hrecords, hgoes k hlt, rfl, ?_⟩
      rw [headroom_ofSteps, headroom_ofSteps]
      omega
    · cases hhalted : p.halted (p.steps k s) with
      | true =>
        have hend : (ofSteps p s budget k k).atEnd = true := hhalted
        exact .inr ⟨_, forward_ofSteps_of_halted hhalted, fun hfalse => by simp [hend] at hfalse,
          iff_of_true rfl hend⟩
      | false =>
        have hallowance := Program.allowance_execute hhalted
        by_cases hnext : Fits p budget (k + 2)
        · rw [forward_ofSteps_of_fits hs hhalted hnext] at hrecords ⊢
          refine .inl ⟨_, rfl, hrecords, hhalted, rfl, ?_⟩
          rw [headroom_ofSteps, headroom_ofSteps, Program.steps_succ,
            Program.step_of_halted_eq_false hhalted]
          omega
        · have hgoesOn : (ofSteps p s budget k k).atEnd = false := hhalted
          refine .inr ⟨_, forward_ofSteps_of_not_fits hs hhalted hnext, fun _ => ?_, ?_⟩
          · rw [headroom_ofSteps]
            omega
          · exact iff_of_false Archive.refusal_ne_runEnded (Bool.eq_false_iff.1 hgoesOn)

/-- What is known of a move forward that has succeeded. -/
theorem Records.of_forward_ok (hs : p.Sound s) (h : Records p s budget n r)
    (hmove : r.forward = (.ok (), next)) :
    Records p s budget (max n next.position) next ∧ r.atEnd = false ∧
      next.position = r.position + 1 ∧ next.headroom + 1 = r.headroom := by
  rcases h.forward_cases hs with ⟨_, hok, hnext⟩ | ⟨fault, hfails, -⟩
  · rw [hmove] at hok
    cases hok
    exact hnext
  · rw [hmove] at hfails
    cases hfails

/-! ## Loops end by themselves -/

section Loops

variable {stop : Recording → Bool} {moves count : Nat} {outcome : Move Nat}

/-- A loop that stops at the latest where the run does needs no more moves than there is headroom. -/
theorem Loops.moves_le_headroom (hs : p.Sound s) (hrecords : Records p s budget n r)
    (hend : ∀ r, r.atEnd = true → stop r = true) (h : Loops stop moves count r outcome) :
    moves ≤ r.headroom := by
  induction h generalizing n with
  | stopped => exact Nat.zero_le _
  | moved _ hmove _ ih =>
    obtain ⟨hnext, -, -, hless⟩ := hrecords.of_forward_ok hs hmove
    have := ih hnext
    omega
  | failed hstop hmove =>
    rcases hrecords.forward_cases hs with ⟨next, hok, -⟩ | ⟨fault, -, hpos, -⟩
    · rw [hmove] at hok
      cases hok
    · refine hpos (Bool.eq_false_of_not_eq_true fun hatEnd => ?_)
      rw [hend _ hatEnd] at hstop
      contradiction

end Loops

/-! ## Resuming -/

theorem toBreakpoint_of_error {fault : Fault} {last : Recording}
    (hmove : r.forward = (.error fault, last)) : r.toBreakpoint = (.error fault, last) := by
  rw [toBreakpoint, hmove]

/-- Resuming is a move forward and then the loop up to a position that rests. -/
theorem Records.toBreakpoint_eq (hs : p.Sound s) (hrecords : Records p s budget n next)
    (hmove : r.forward = (.ok (), next)) {moves : Nat} {outcome : Move Nat}
    (h : Loops rests moves 1 next outcome) : r.toBreakpoint = outcome := by
  have hmoves := h.moves_le_headroom hs hrecords fun r hend => by rw [rests, hend, Bool.true_or]
  rw [toBreakpoint, hmove]
  exact h.forwardUntil_eq hmoves

theorem Reached.records (hbounded : Bounded p s budget) (h : Reached p s budget r) :
    ∃ n, Records p s budget n r := by
  obtain ⟨hk, hn⟩ := h
  have hroom := hbounded.room_pos
  rw [horizon, Nat.le_min] at hn
  refine ⟨_, .intro hk (fun m hm => ?_) ((hbounded.counted.fits_iff ?_ ?_).2 ?_)⟩
  · exact Program.halted_steps_eq_false_iff.2 (Nat.lt_of_lt_of_le hm hn.1)
  · omega
  · omega
  · omega

/-- Resuming ends on the next position that rests. -/
theorem Bounded.toBreakpoint_of_rests (h : Bounded p s budget) (hkn : k ≤ n)
    (hn : n ≤ horizon p s budget) {q : Nat} (hkq : k < q) (hq : q ≤ horizon p s budget)
    (hgoes : ∀ j, k < j → j < q → p.restsAt s j = false) (hrests : p.restsAt s q = true) :
    (ofSteps p s budget n k).toBreakpoint = (.ok (q - k), ofSteps p s budget (max n q) q) := by
  have hmove := h.forward_of_lt hkn (Nat.lt_of_lt_of_le hkq hq)
  obtain ⟨_, hrecords⟩ := Reached.records h
    (.intro (Nat.le_max_right n (k + 1)) (Nat.max_le.2 ⟨hn, Nat.le_trans hkq hq⟩))
  have hloops : Loops rests _ 1 _ _ := h.loops_of_stop 1 (Nat.le_max_right n (k + 1)) hkq hq
    (fun _ j hkj hjq => hgoes j hkj hjq) (fun _ => hrests)
  rw [hrecords.toBreakpoint_eq h.sound hmove hloops, Nat.max_assoc, Nat.max_eq_right hkq]
  rw [show 1 + (q - (k + 1)) = q - k from by omega]

/-- Where no later position rests, resuming fails at the horizon, as a move forward does there. -/
theorem Bounded.toBreakpoint_of_goes (h : Bounded p s budget) {fault : Fault} (hkn : k ≤ n)
    (hn : n ≤ horizon p s budget)
    (hgoes : ∀ j, k < j → j ≤ horizon p s budget → p.restsAt s j = false)
    (hfails : (ofSteps p s budget (horizon p s budget) (horizon p s budget)).forward =
      (.error fault, ofSteps p s budget (horizon p s budget) (horizon p s budget))) :
    (ofSteps p s budget n k).toBreakpoint =
      (.error fault, ofSteps p s budget (horizon p s budget) (horizon p s budget)) := by
  by_cases hlt : k < horizon p s budget
  · have hmove := h.forward_of_lt hkn hlt
    have hle : max n (k + 1) ≤ horizon p s budget := Nat.max_le.2 ⟨hn, hlt⟩
    obtain ⟨_, hrecords⟩ := Reached.records h (.intro (Nat.le_max_right n (k + 1)) hle)
    have hloops : Loops rests _ 1 _ _ := h.loops_of_goes (Nat.le_max_right n (k + 1)) hle
      (fun _ j hkj hj => hgoes j hkj hj) hfails
    exact hrecords.toBreakpoint_eq h.sound hmove hloops
  · obtain rfl : n = horizon p s budget := by omega
    obtain rfl : k = horizon p s budget := by omega
    exact toBreakpoint_of_error hfails

end Recording

end TapeDebugger
