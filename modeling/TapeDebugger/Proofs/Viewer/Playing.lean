-- SUMMARY: Playing frame by frame ends, and leaves the recording that resuming leaves.
import TapeDebugger.Proofs.Viewer.Events

/-!
# Playing

Playing goes forward one frame in each round and looks at nothing but the outcome: it stops on a
breakpoint, or when a move fails. Resuming looks at the end of the run first, so that it never tries the
move that fails there. Both make the same moves up to the last one (`Recording.Coasts`), and a move that
fails changes nothing, so both end in the same recording. There is a last move because every one that
succeeds uses up headroom (`exists_coasts`).
-/

namespace TapeDebugger

namespace Recording

variable {p : Program} {s : State} {budget n moves count : Nat} {r before last : Recording}

/-! ## The moves that playing makes -/

/-- So many moves forward, all of which succeed and none of which leads to a breakpoint. -/
inductive Coasts : Nat → Recording → Recording → Prop where
  | stay {r : Recording} : Coasts 0 r r
  | move {moves : Nat} {r next last : Recording} (hmove : r.forward = (.ok (), next))
      (hgoes : next.atBreakpoint = false) (hrest : Coasts moves next last) :
      Coasts (moves + 1) r last

/-- A move forward that playing ends with: it leads to a breakpoint, or fails and changes nothing. -/
inductive Pauses (r : Recording) : Recording → Prop where
  | breakpoint {last : Recording} (hmove : r.forward = (.ok (), last))
      (hbreak : last.atBreakpoint = true) : Pauses r last
  | refused {fault : Fault} (hmove : r.forward = (.error fault, r)) : Pauses r r

/-- Going forward comes to a breakpoint or to a move that fails. -/
theorem exists_coasts (hs : p.Sound s) (h : Records p s budget n r) :
    ∃ moves before last, Coasts moves r before ∧ Pauses before last := by
  induction hd : r.headroom using Nat.strong_induction_on generalizing n r with
  | h headroom ih =>
    rcases h.forward_cases hs with ⟨next, hmove, hnext, -, -, hless⟩ | ⟨fault, hmove, -⟩
    · cases hbreak : next.atBreakpoint with
      | true => exact ⟨0, r, next, .stay, .breakpoint hmove hbreak⟩
      | false =>
        obtain ⟨moves, before, last, hcoasts, hpauses⟩ := ih next.headroom (by omega) hnext rfl
        exact ⟨moves + 1, before, last, .move hmove hbreak hcoasts, hpauses⟩
    · exact ⟨0, r, r, .stay, .refused hmove⟩

theorem Coasts.records (hs : p.Sound s) (hcoasts : Coasts moves r before)
    (h : Records p s budget n r) :
    (∃ n, Records p s budget n before) ∧ before.position = r.position + moves := by
  induction hcoasts generalizing n with
  | stay => exact ⟨⟨n, h⟩, rfl⟩
  | move hmove _ _ ih =>
    obtain ⟨hnext, -, hposition, -⟩ := h.of_forward_ok hs hmove
    obtain ⟨hrecords, hbefore⟩ := ih hnext
    refine ⟨hrecords, ?_⟩
    omega

/-! ## The same moves when resuming -/

/-- The loop of resuming makes the same moves, but for one that fails at the end of the run. -/
theorem Coasts.exists_loops (hs : p.Sound s) (hcoasts : Coasts moves r before)
    (hpauses : Pauses before last) (h : Records p s budget n r) (hgoes : r.atBreakpoint = false)
    (count : Nat) : ∃ turns outcome, Loops rests turns count r (outcome, last) := by
  induction hcoasts generalizing n count with
  | stay =>
    cases hpauses with
    | breakpoint hmove hbreak =>
      obtain ⟨-, hend, -⟩ := h.of_forward_ok hs hmove
      exact ⟨_, _, .moved (by rw [rests, hend, hgoes]; rfl) hmove
        (.stopped (by rw [rests, hbreak, Bool.or_true]))⟩
    | refused hmove =>
      cases hrests : last.rests with
      | true => exact ⟨_, _, .stopped hrests⟩
      | false => exact ⟨_, _, .failed hrests hmove⟩
  | move hmove hnextGoes _ ih =>
    obtain ⟨hnext, hend, -⟩ := h.of_forward_ok hs hmove
    obtain ⟨turns, outcome, hloops⟩ := ih hpauses hnext hnextGoes (count + 1)
    exact ⟨_, _, .moved (by rw [rests, hend, hgoes]; rfl) hmove hloops⟩

/-- Resuming leads to where playing ends. -/
theorem Coasts.toBreakpoint_eq (hs : p.Sound s) (hcoasts : Coasts moves r before)
    (hpauses : Pauses before last) (h : Records p s budget n r) : r.toBreakpoint.2 = last := by
  cases hcoasts with
  | stay =>
    cases hpauses with
    | breakpoint hmove hbreak =>
      obtain ⟨hlast, -⟩ := h.of_forward_ok hs hmove
      rw [hlast.toBreakpoint_eq hs hmove (.stopped (by rw [rests, hbreak, Bool.or_true]))]
    | refused hmove => rw [toBreakpoint_of_error hmove]
  | move hmove hgoes hrest =>
    obtain ⟨hnext, -⟩ := h.of_forward_ok hs hmove
    obtain ⟨turns, outcome, hloops⟩ := hrest.exists_loops hs hpauses hnext hgoes 1
    rw [hnext.toBreakpoint_eq hs hmove hloops]

end Recording

namespace Viewer

open Recording (Coasts Pauses)

variable {v : Viewer} {moves : Nat} {next before last : Recording}

/-! ## Rounds -/

/-- One round after the other, on screens of any sizes. -/
def rounds (v : Viewer) (screens : List (Nat × Nat)) : Viewer :=
  screens.foldl (fun v screen => v.round screen.1 screen.2) v

theorem rounds_cons (v : Viewer) (screen : Nat × Nat) (screens : List (Nat × Nat)) :
    v.rounds (screen :: screens) = (v.round screen.1 screen.2).rounds screens := rfl

theorem rounds_concat (v : Viewer) (screens : List (Nat × Nat)) (screen : Nat × Nat) :
    v.rounds (screens ++ [screen]) = (v.rounds screens).round screen.1 screen.2 := by
  simp only [rounds, List.foldl_append, List.foldl_cons, List.foldl_nil]

theorem round_of_ok (width height : Nat) (hplaying : v.playing = true) (hopen : v.quit = false)
    (hmove : v.recording.forward = (.ok (), next)) :
    (v.round width height).recording = next ∧
      (v.round width height).playing = !next.atBreakpoint ∧
      (v.round width height).quit = false := by
  rw [round, advance, playing_settle, quit_settle, hplaying, hopen]
  simp only [tick, recording_settle, hmove]
  cases next.atBreakpoint with
  | true => exact ⟨rfl, rfl, hopen⟩
  | false => exact ⟨rfl, hplaying, hopen⟩

theorem round_of_error {fault : Fault} (width height : Nat) (hplaying : v.playing = true)
    (hopen : v.quit = false) (hmove : v.recording.forward = (.error fault, last)) :
    (v.round width height).recording = last ∧ (v.round width height).playing = false := by
  rw [round, advance, playing_settle, quit_settle, hplaying, hopen]
  simp only [tick, recording_settle, hmove]
  exact ⟨rfl, rfl⟩

/-- Playing goes on for as many rounds as there are moves before the last one. -/
theorem rounds_of_coasts (hcoasts : Coasts moves v.recording before) (hplaying : v.playing = true)
    (hopen : v.quit = false) (screens : List (Nat × Nat)) (hshort : screens.length ≤ moves) :
    (v.rounds screens).playing = true ∧ (v.rounds screens).quit = false ∧
      (screens.length = moves → (v.rounds screens).recording = before) := by
  generalize hr : v.recording = r at hcoasts
  induction hcoasts generalizing v screens with
  | stay =>
    obtain rfl : screens = [] := List.length_eq_zero_iff.1 (Nat.le_zero.1 hshort)
    exact ⟨hplaying, hopen, fun _ => hr⟩
  | move hmove hgoes _ ih =>
    cases screens with
    | nil => exact ⟨hplaying, hopen, nofun⟩
    | cons screen screens =>
      rw [← hr] at hmove
      obtain ⟨hnext, hstill, hstillOpen⟩ :=
        round_of_ok screen.1 screen.2 hplaying hopen hmove
      rw [hgoes] at hstill
      rw [rounds_cons, List.length_cons, Nat.add_right_cancel_iff]
      exact ih hstill hstillOpen screens (Nat.le_of_succ_le_succ hshort) hnext

/-- The round after that ends playing. -/
theorem rounds_of_pauses (hcoasts : Coasts moves v.recording before) (hpauses : Pauses before last)
    (hplaying : v.playing = true) (hopen : v.quit = false) (screens : List (Nat × Nat))
    (hlength : screens.length = moves + 1) :
    (v.rounds screens).playing = false ∧ (v.rounds screens).recording = last := by
  obtain rfl | ⟨front, screen, rfl⟩ := List.eq_nil_or_concat' screens
  · cases hlength
  · rw [List.length_append, List.length_singleton, Nat.add_right_cancel_iff] at hlength
    obtain ⟨hstill, hstillOpen, hrecording⟩ :=
      rounds_of_coasts hcoasts hplaying hopen front (Nat.le_of_eq hlength)
    rw [rounds_concat]
    cases hpauses with
    | breakpoint hmove hbreak =>
      rw [← hrecording hlength] at hmove
      obtain ⟨hlast, hstopped, -⟩ :=
        round_of_ok screen.1 screen.2 hstill hstillOpen hmove
      rw [hbreak] at hstopped
      exact ⟨hstopped, hlast⟩
    | refused hmove =>
      rw [← hrecording hlength] at hmove
      obtain ⟨hlast, hstopped⟩ :=
        round_of_error screen.1 screen.2 hstill hstillOpen hmove
      exact ⟨hstopped, hlast.trans (hrecording hlength)⟩

/-! ## Playing and resuming -/

theorem press_space (v : Viewer) : v.press (.char ' ') = v.togglePlaying := rfl

theorem recording_press_resume (v : Viewer) :
    (v.press (.char 'c')).recording = v.recording.toBreakpoint.2 := by
  rw [recording_press]
  rfl

/-- Playing and resuming lead to the same recording, from any viewer that has come about from a run and is
neither playing nor closed. Playing takes some number of rounds, whatever screens are drawn, and no
fewer. If it ends on a breakpoint, that is as many rounds as positions gone forward. Otherwise it is one
more, for a last move that fails and changes nothing. -/
theorem playing_resumes {p : Program} {m budget : Nat} {first : Recording} {v : Viewer}
    (hfirst : Recording.start p (p.steps m p.start) budget = .ok first) (hv : Reachable first v)
    (hpaused : v.playing = false) (hopen : v.quit = false) :
    let started := v.press (.char ' ')
    let resumed := (v.press (.char 'c')).recording
    ∃ n,
      (∀ screens, screens.length < n → (started.rounds screens).playing = true) ∧
      (∀ screens, screens.length = n →
        (started.rounds screens).playing = false ∧ (started.rounds screens).recording = resumed) ∧
      ((resumed.atBreakpoint = true ∧ resumed.position = v.recording.position + n ∧
          ∀ screens, screens.length + 1 = n →
            (started.rounds screens).recording.forward = (.ok (), resumed)) ∨
        (resumed.position + 1 = v.recording.position + n ∧
          (∃ fault, resumed.forward = (.error fault, resumed)) ∧
          ∀ screens, screens.length + 1 = n → (started.rounds screens).recording = resumed)) := by
  intro started resumed
  have hs := p.sound_steps m
  obtain ⟨n, hrecords⟩ := hv.records hs hfirst
  obtain ⟨moves, before, last, hcoasts, hpauses⟩ := Recording.exists_coasts hs hrecords
  have hstarted : started = { v with playing := true, message := "Playing..." } := by
    rw [show started = v.togglePlaying from v.press_space, togglePlaying, if_neg (by simp [hpaused])]
  have hresumed : resumed = last :=
    v.recording_press_resume.trans (hcoasts.toBreakpoint_eq hs hpauses hrecords)
  have hcoasts' : Coasts moves started.recording before := by
    rw [hstarted]
    exact hcoasts
  have hplaying : started.playing = true := by rw [hstarted]
  have hstillOpen : started.quit = false := by
    rw [hstarted]
    exact hopen
  obtain ⟨⟨_, hbefore⟩, hposition⟩ := hcoasts.records hs hrecords
  have hlastRound (screens : List (Nat × Nat)) (hlength : screens.length + 1 = moves + 1) :
      (started.rounds screens).recording = before := by
    have hmoves : screens.length = moves := Nat.succ.inj hlength
    exact (rounds_of_coasts hcoasts' hplaying hstillOpen screens (Nat.le_of_eq hmoves)).2.2 hmoves
  rw [hresumed]
  refine ⟨moves + 1, fun screens hshort => ?_, fun screens hlength => ?_, ?_⟩
  · exact (rounds_of_coasts hcoasts' hplaying hstillOpen screens (Nat.le_of_lt_succ hshort)).1
  · exact rounds_of_pauses hcoasts' hpauses hplaying hstillOpen screens hlength
  · cases hpauses with
    | breakpoint hmove hbreak =>
      obtain ⟨-, -, hnext, -⟩ := hbefore.of_forward_ok hs hmove
      refine .inl ⟨hbreak, by omega, fun screens hlength => ?_⟩
      rw [hlastRound screens hlength]
      exact hmove
    | refused hmove => exact .inr ⟨by omega, ⟨_, hmove⟩, hlastRound⟩

/-- In `+!+` resuming stops at the breakpoint after one step. Playing from there reaches the end of the run
after two steps, and a third round finds that there is no way forward. -/
theorem playing_resumes_of_run_end :
    ∃ p first v,
      Program.load { tapeSize := 1, instructionLimit := 9 } #[0x2b, 0x21, 0x2b] #[] = .ok p ∧
      Recording.start p (p.steps 0 p.start) 300 = .ok first ∧
      v = respond { recording := first } (.press (.char 'c')) ∧
      v.recording.position = 1 ∧
      (v.press (.char 'c')).recording.position = 3 ∧
      ∀ screens, screens.length = 3 →
        ((v.press (.char ' ')).rounds screens).playing = false ∧
        ((v.press (.char ' ')).rounds screens).recording = (v.press (.char 'c')).recording := by
  let p : Program := ⟨{ tapeSize := 1, instructionLimit := 9 }, #[0x2b, 0x21, 0x2b], #[],
    ⟨#[], #[none, none, none], #[none, none, none]⟩, rfl, rfl, rfl⟩
  have hfits : Archive.Fits p 300 1 := by decide
  have hfirst := Recording.start_of_fits (p.sound_steps 0) hfits
  let first := Recording.ofSteps p (p.steps 0 p.start) 300 0 0
  let v : Viewer := respond { recording := first } (.press (.char 'c'))
  have hposition : v.recording.position = 1 := by decide +kernel
  have hresumed : (v.press (.char 'c')).recording.position = 3 := by decide +kernel
  have hend : (v.press (.char 'c')).recording.atBreakpoint = false := by decide +kernel
  obtain ⟨n, -, hlength, hcount⟩ := playing_resumes (v := v) hfirst (.respond _ .start)
    (by decide +kernel) (by decide +kernel)
  obtain rfl : n = 3 := by
    rcases hcount with ⟨hbreak, -⟩ | ⟨hcount, -⟩
    · rw [hend] at hbreak
      contradiction
    · omega
  exact ⟨p, first, v, rfl, hfirst, rfl, hposition, hresumed, hlength⟩

end Viewer

end TapeDebugger
