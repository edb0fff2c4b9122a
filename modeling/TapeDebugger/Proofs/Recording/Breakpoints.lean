-- SUMMARY: Resuming ends at the first opportunity behind the frame on show, by replaying or by recording, or not at all.
import TapeDebugger.Proofs.Recording.Resume
import TapeDebugger.Proofs.Recording.Ends

/-!
# Breakpoints

Resuming looks for an opportunity to rest: a position behind the one on show where the run has stopped or a
breakpoint is next. `opportunities` are those within the horizon, said of the run alone. Where there is one,
resuming ends on the least of them; where there is none, the run has stopped already, or the room for frames
is used up before the next one. In all three cases the position on show settles what happens, and the number
of frames recorded does not (`Reached.same_toBreakpoint`). That the loop behind it comes to an end needs no
horizon: every move forward uses up headroom (`Records.resumes_iff`).
-/

namespace TapeDebugger

theorem Program.restsAt_eq_true_iff {p : Program} {s : State} {n : Nat} :
    p.restsAt s n = true ↔
      p.halted (p.steps n s) = true ∨ p.source[(p.steps n s).ip]? = some breakpoint := by
  rw [restsAt, Bool.or_eq_true, beq_iff_eq]

namespace Recording

open Archive (Fits room)

variable {p : Program} {s : State} {budget n k q : Nat} {r : Recording}

-- ---------------------------------------------------------------------------
-- The loop behind resuming
-- ---------------------------------------------------------------------------

/-- Resuming without a bound on its turns: a move forward, and unless it fails, the loop that goes forward
until the frame on show rests. -/
inductive Resumes (r : Recording) : Move Nat → Prop where
  | refused {fault : Fault} {last : Recording} (hmove : r.forward = (.error fault, last)) :
      Resumes r (.error fault, last)
  | resumed {next : Recording} {moves : Nat} {outcome : Move Nat} (hmove : r.forward = (.ok (), next))
      (hrest : Loops rests moves 1 next outcome) : Resumes r outcome

/-- A loop that succeeds has met its condition. -/
theorem Loops.stop_of_ok {stop : Recording → Bool} {moves count total : Nat} {outcome : Move Nat}
    (h : Loops stop moves count r outcome) (hok : outcome.1 = .ok total) :
    stop outcome.2 = true := by
  induction h with
  | stopped hstop => exact hstop
  | moved _ _ _ ih => exact ih hok
  | failed _ _ => cases hok

/-- Whatever its condition, a loop of moves forward comes to an end, for each of them uses up headroom. -/
theorem Records.exists_loops (hs : p.Sound s) (h : Records p s budget n r) (stop : Recording → Bool)
    (count : Nat) : ∃ moves outcome, Loops stop moves count r outcome := by
  induction hd : r.headroom using Nat.strong_induction_on generalizing n r count with
  | h headroom ih =>
    cases hstop : stop r with
    | true => exact ⟨_, _, .stopped hstop⟩
    | false =>
      rcases h.forward_cases hs with ⟨next, hmove, hnext, -, -, hless⟩ | ⟨fault, hmove, -⟩
      · obtain ⟨moves, outcome, hloops⟩ := ih next.headroom (by omega) hnext (count + 1) rfl
        exact ⟨_, _, .moved hstop hmove hloops⟩
      · exact ⟨_, _, .failed hstop hmove⟩

/-- The loop ends in one way, and that is what resuming answers. -/
theorem Records.resumes_iff (hs : p.Sound s) (h : Records p s budget n r) (outcome : Move Nat) :
    Resumes r outcome ↔ outcome = r.toBreakpoint := by
  constructor
  · intro hresumes
    cases hresumes with
    | refused hmove => exact (toBreakpoint_of_error hmove).symm
    | resumed hmove hrest =>
      obtain ⟨hnext, -⟩ := h.of_forward_ok hs hmove
      exact (hnext.toBreakpoint_eq hs hmove hrest).symm
  · rintro rfl
    rcases h.forward_cases hs with ⟨next, hmove, hnext, -⟩ | ⟨fault, hmove, -⟩
    · obtain ⟨moves, outcome, hloops⟩ := hnext.exists_loops hs rests 1
      rw [hnext.toBreakpoint_eq hs hmove hloops]
      exact .resumed hmove hloops
    · rw [toBreakpoint_of_error hmove]
      exact .refused hmove

/-- Where resuming succeeds, the frame on show rests. -/
theorem Records.rests_toBreakpoint (hs : p.Sound s) (h : Records p s budget n r) {count : Nat}
    (hok : r.toBreakpoint.1 = .ok count) : r.toBreakpoint.2.rests = true := by
  have hresumes : Resumes r r.toBreakpoint := (h.resumes_iff hs _).2 rfl
  generalize r.toBreakpoint = outcome at hok hresumes
  cases hresumes with
  | refused hmove => cases hok
  | resumed hmove hrest => exact hrest.stop_of_ok hok

theorem Records.length_pos (h : Records p s budget n r) : 0 < r.length := by
  obtain ⟨hk, hgoes, hfits⟩ := h
  rw [length_ofSteps]
  exact Nat.succ_pos n

/-- The frames recorded are those of the run, one for each step. -/
theorem Records.get?_archive (h : Records p s budget n r) (k : Nat) :
    r.archive.get? k = if k < r.length then some (Frame.capture p (p.steps k s)) else none := by
  obtain ⟨hk, hgoes, hfits⟩ := h
  rw [length_ofSteps]
  exact get?_archive_ofSteps

-- ---------------------------------------------------------------------------
-- Opportunities
-- ---------------------------------------------------------------------------

/-- The positions behind a given one, up to the horizon, where the run has stopped or a breakpoint is next. -/
def opportunities (p : Program) (s : State) (budget position : Nat) : Set Nat :=
  {q | position < q ∧ q ≤ horizon p s budget ∧
    (p.halted (p.steps q s) = true ∨ p.source[(p.steps q s).ip]? = some breakpoint)}

theorem mem_opportunities_iff {position : Nat} :
    q ∈ opportunities p s budget position ↔
      position < q ∧ q ≤ horizon p s budget ∧ p.restsAt s q = true := by
  rw [Program.restsAt_eq_true_iff]
  rfl

namespace Reached

/-- Resuming ends on the first opportunity, with all frames up to there recorded. -/
theorem toBreakpoint_of_isLeast (hbounded : Bounded p s budget) (h : Reached p s budget r)
    (hq : IsLeast (opportunities p s budget r.position) q) :
    r.toBreakpoint = (.ok (q - r.position), ofSteps p s budget (max (r.length - 1) q) q) := by
  obtain @⟨n, k, hk, hn⟩ := h
  obtain ⟨hkq, hhorizon, hrests⟩ := mem_opportunities_iff.1 hq.1
  rw [length_ofSteps, Nat.add_sub_cancel]
  refine hbounded.toBreakpoint_of_rests hk hn hkq hhorizon (fun j hkj hjq => ?_) hrests
  apply Bool.eq_false_of_not_eq_true
  intro hearlier
  have hle : q ≤ j := hq.2 (mem_opportunities_iff.2 ⟨hkj, by omega, hearlier⟩)
  omega

/-- Where the run has stopped there is no opportunity left, and resuming changes nothing. -/
theorem toBreakpoint_of_lastStep (h : Reached p s budget r) (hend : r.position = p.lastStep s) :
    opportunities p s budget r.position = ∅ ∧ r.toBreakpoint = (.error .runEnded, r) := by
  refine ⟨Set.eq_empty_of_forall_notMem fun q hq => ?_,
    toBreakpoint_of_error (h.forward_of_lastStep hend)⟩
  have hle : q ≤ p.lastStep s := Nat.le_trans hq.2.1 (Nat.min_le_left _ _)
  exact absurd hq.1 (by omega)

/-- Where the run goes on without an opportunity, resuming uses up the room for frames. -/
theorem toBreakpoint_of_eq_empty (hbounded : Bounded p s budget) (h : Reached p s budget r)
    (hgoes : r.position < p.lastStep s) (hempty : opportunities p s budget r.position = ∅) :
    horizon p s budget + 1 = room p budget ∧
      r.toBreakpoint = (.error (.budgetExhausted (room p budget * p.frameSize) budget),
        ofSteps p s budget (horizon p s budget) (horizon p s budget)) := by
  obtain @⟨n, k, hk, hn⟩ := h
  have hnone (j : Nat) (hkj : k < j) (hj : j ≤ horizon p s budget) : p.restsAt s j = false := by
    apply Bool.eq_false_of_not_eq_true
    intro hrests
    exact hempty.subset (mem_opportunities_iff.2 ⟨hkj, hj, hrests⟩)
  -- the stopped state would be an opportunity, so the horizon lies before it
  have hbefore : ¬ p.lastStep s < room p budget := by
    intro hend
    have hhorizon := Bounded.horizon_eq_lastStep hend
    have hrests : p.restsAt s (p.lastStep s) = true :=
      Program.restsAt_eq_true_iff.2 (.inl (p.halted_steps_lastStep s))
    rw [hnone _ hgoes (Nat.le_of_eq hhorizon.symm)] at hrests
    contradiction
  have hfails := hbounded.forward_horizon
  rw [if_neg hbefore] at hfails
  exact ⟨(hbounded.horizon_lt_lastStep hbefore).1, hbounded.toBreakpoint_of_goes hk hn hnone hfails⟩

/-- What resuming does is settled by the position on show, whatever has been recorded behind it. -/
theorem same_toBreakpoint {r' : Recording} (hbounded : Bounded p s budget) (h : Reached p s budget r)
    (h' : Reached p s budget r') (hposition : r'.position = r.position) :
    r'.toBreakpoint.1 = r.toBreakpoint.1 ∧ r'.toBreakpoint.2.position = r.toBreakpoint.2.position := by
  rcases (opportunities p s budget r.position).eq_empty_or_nonempty with hempty | hsome
  · obtain hgoes | hend := Nat.lt_or_eq_of_le h.position_le_lastStep
    · rw [(h.toBreakpoint_of_eq_empty hbounded hgoes hempty).2,
        (h'.toBreakpoint_of_eq_empty hbounded (hposition ▸ hgoes) (hposition ▸ hempty)).2]
      exact ⟨rfl, rfl⟩
    · rw [(h.toBreakpoint_of_lastStep hend).2,
        (h'.toBreakpoint_of_lastStep (hposition.trans hend)).2]
      exact ⟨rfl, hposition⟩
  · have hleast : IsLeast (opportunities p s budget r.position)
        (sInf (opportunities p s budget r.position)) :=
      ⟨Nat.sInf_mem hsome, fun _ hq => Nat.sInf_le hq⟩
    rw [h.toBreakpoint_of_isLeast hbounded hleast,
      h'.toBreakpoint_of_isLeast hbounded (hposition ▸ hleast), hposition]
    exact ⟨rfl, rfl⟩

end Reached

/-- Resuming stops at the first opportunity and nowhere else, wherever moves on a recording have led, of a
run from any state that a program reaches. The loop behind it comes to an end, and in one way only. An
opportunity is a position behind the one on show where the run has stopped or a breakpoint is next. Resuming
goes to the first one and counts the moves, of which there is at least one. On the last state of the run
there is none, and resuming fails and changes nothing. Otherwise it fails where the room for frames is used
up, with every state up to there recorded. A recording that shows the same position, but has other frames
behind it, answers the same and shows the same afterwards. -/
theorem toBreakpoint_of_walk {p : Program} {m budget : Nat} {first last : Recording}
    {actions : List Action} (hfirst : start p (p.steps m p.start) budget = .ok first)
    (hlast : first.walk actions = last)
    (hcounted : min (p.lastStep (p.steps m p.start) + 1) (budget / (72 + p.settings.tapeSize) + 1) *
      (72 + p.settings.tapeSize) < UInt64.size) :
    let s := p.steps m p.start
    let n := p.lastStep s
    let frames := budget / (72 + p.settings.tapeSize)
    let ahead : Set Nat := {q | last.position < q ∧ q ≤ min n (frames - 1) ∧
      (p.halted (p.steps q s) = true ∨ p.source[(p.steps q s).ip]? = some breakpoint)}
    let after := last.toBreakpoint.2
    (∀ outcome, Resumes last outcome ↔ outcome = last.toBreakpoint) ∧
    (∀ q, IsLeast ahead q →
      last.toBreakpoint.1 = .ok (q - last.position) ∧ last.position < q ∧ after.position = q ∧
      after.length = max last.length (q + 1)) ∧
    (last.position = n → ahead = ∅ ∧ last.toBreakpoint = (.error .runEnded, last)) ∧
    (last.position < n → ahead = ∅ →
      last.toBreakpoint.1 = .error (.budgetExhausted (frames * (72 + p.settings.tapeSize)) budget) ∧
      after.position + 1 = frames ∧ after.length = frames) ∧
    last.position ≤ n ∧
    (∀ k, after.archive.get? k =
      if k < after.length then some (Frame.capture p (p.steps k s)) else none) ∧
    (after.shown = Frame.capture p (p.steps after.position s) ∧
      after.output = (p.steps after.position s).spool.bytes) ∧
    (∀ others, (first.walk others).position = last.position →
      let other := (first.walk others).toBreakpoint
      other.1 = last.toBreakpoint.1 ∧ other.2.position = after.position ∧
      other.2.shown = after.shown ∧ other.2.output = after.output) := by
  intro s n frames ahead after
  have hs := p.sound_steps m
  have hbounded : Bounded p s budget := bounded_of_start hs hcounted hfirst
  have h : Reached p s budget last := reached_walk hs hbounded hfirst hlast
  have hafter : Reached p s budget after := h.leads hbounded (leads_path last .toBreakpoint)
  obtain ⟨_, hrecords⟩ := h.records hbounded
  obtain ⟨_, hrecordsAfter⟩ := hafter.records hbounded
  refine ⟨hrecords.resumes_iff hs, fun q hq => ?_, fun hend => h.toBreakpoint_of_lastStep hend,
    fun hgoes hempty => ?_, h.position_le_lastStep, hrecordsAfter.get?_archive,
    hrecordsAfter.on_show.2, fun others hposition => ?_⟩
  · have hresult := h.toBreakpoint_of_isLeast hbounded hq
    rw [show after = _ from congrArg Prod.snd hresult]
    refine ⟨congrArg Prod.fst hresult, hq.1.1, rfl, ?_⟩
    have hpositive : 0 < last.length := hrecords.length_pos
    rw [length_ofSteps]
    omega
  · obtain ⟨hroom, hresult⟩ := h.toBreakpoint_of_eq_empty hbounded hgoes hempty
    rw [show after = _ from congrArg Prod.snd hresult]
    exact ⟨congrArg Prod.fst hresult, hroom, length_ofSteps.trans hroom⟩
  · have h' : Reached p s budget (first.walk others) := reached_walk hs hbounded hfirst rfl
    obtain ⟨houtcome, hposition'⟩ := h.same_toBreakpoint hbounded h' hposition
    have hother : Reached p s budget (first.walk others).toBreakpoint.2 :=
      h'.leads hbounded (leads_path _ .toBreakpoint)
    obtain ⟨_, hrecordsOther⟩ := hother.records hbounded
    obtain ⟨-, hshown, houtput⟩ := hrecordsOther.on_show
    rw [hposition'] at hshown houtput
    exact ⟨houtcome, hposition', hshown.trans hrecordsAfter.on_show.2.1.symm,
      houtput.trans hrecordsAfter.on_show.2.2.symm⟩

/-- The loop of `+[!]` never ends by itself, and its breakpoint is next after two steps. A budget of 300
bytes has room for four frames of 73, so that from there the way round the loop is too long. Once the four
frames are recorded, resuming from the first one leads to the breakpoint as before. -/
theorem toBreakpoint_of_walk_around_loop :
    ∃ p first,
      Program.load { tapeSize := 1, instructionLimit := 9 } #[0x2b, 0x5b, 0x21, 0x5d] #[] = .ok p ∧
      start p (p.steps 0 p.start) 300 = .ok first ∧
      (first.walk []).toBreakpoint.1 = .ok 2 ∧
      (first.walk [.toBreakpoint]).toBreakpoint.1 = .error (.budgetExhausted 292 300) ∧
      (first.walk [.toBreakpoint]).toBreakpoint.2.length = 4 ∧
      (first.walk [.toEnd, .rewind]).toBreakpoint.1 = .ok 2 := by
  let p : Program := ⟨{ tapeSize := 1, instructionLimit := 9 }, #[0x2b, 0x5b, 0x21, 0x5d], #[],
    ⟨#[⟨some 1, some 3⟩], #[none, some 3, none, none], #[none, none, none, some 1]⟩, rfl, rfl, rfl⟩
  have hfits : Archive.Fits p 300 1 := by decide
  have hfirst := start_of_fits (p.sound_steps 0) hfits
  have hlong : 3 < p.lastStep (p.steps 0 p.start) :=
    Program.halted_steps_eq_false_iff.1 (by decide +kernel)
  have hroom : 300 / (72 + p.settings.tapeSize) = 4 := show 300 / (72 + 1) = 4 by decide
  have hhorizon : horizon p (p.steps 0 p.start) 300 = 3 := by
    rw [horizon, show room p 300 = 4 from hroom]
    exact Nat.min_eq_right (Nat.le_of_lt hlong)
  have hcounted : min (p.lastStep (p.steps 0 p.start) + 1) (300 / (72 + p.settings.tapeSize) + 1) *
      (72 + p.settings.tapeSize) < UInt64.size :=
    Nat.lt_of_le_of_lt (Nat.mul_le_mul_right _ (Nat.min_le_right _ _)) (by decide)
  have hleast : IsLeast (opportunities p (p.steps 0 p.start) 300 0) 2 := by
    refine ⟨⟨by decide, by rw [hhorizon]; decide, by decide +kernel⟩, ?_⟩
    rintro q ⟨hpos, -, hrests⟩
    by_contra hq
    obtain rfl : q = 1 := Nat.le_antisymm (Nat.le_of_lt_succ (Nat.lt_of_not_le hq)) hpos
    revert hrests
    decide +kernel
  have hnone : opportunities p (p.steps 0 p.start) 300 2 = ∅ := by
    refine Set.eq_empty_of_forall_notMem ?_
    rintro q ⟨hpos, hq, hrests⟩
    rw [hhorizon] at hq
    obtain rfl : q = 3 := Nat.le_antisymm hq hpos
    revert hrests
    decide +kernel
  obtain ⟨-, hfound, -, -, -, -, -, hsame⟩ :=
    toBreakpoint_of_walk hfirst (rfl : walk _ [] = _) hcounted
  obtain ⟨hcount, -⟩ := hfound 2 hleast
  obtain ⟨-, -, -, hexhausted, -⟩ :=
    toBreakpoint_of_walk hfirst (rfl : walk _ [.toBreakpoint] = _) hcounted
  have hposition : (walk (ofSteps p (p.steps 0 p.start) 300 0 0) [.toBreakpoint]).position = 2 := by
    decide +kernel
  rw [hposition] at hexhausted
  obtain ⟨hfault, -, hlength⟩ := hexhausted (Nat.lt_of_succ_lt hlong) hnone
  rw [hroom] at hfault hlength
  exact ⟨p, _, rfl, hfirst, hcount, hfault, hlength,
    (hsame [.toEnd, .rewind] (by decide +kernel)).1.trans hcount⟩

end Recording

end TapeDebugger
