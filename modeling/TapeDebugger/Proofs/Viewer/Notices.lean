-- SUMMARY: A breakpoint is reported where the run goes on from it, and where the run was cut short in front of it.
import TapeDebugger.Proofs.Recording.Breakpoints
import TapeDebugger.Proofs.Viewer.Events

/-!
# Notices of a breakpoint

Resuming and playing speak of a breakpoint where the instruction pointer is on one, and do not ask whether
the run has ended. The end of the source is no breakpoint, but a full output and the instruction limit end
a run wherever it is. `Program.CutShort` is such an end with a breakpoint next. Its frame is the one place
where a run that has ended is reported as a breakpoint (`notices_of_reachable`), and there it is.
-/

namespace TapeDebugger

-- ---------------------------------------------------------------------------
-- Runs cut short
-- ---------------------------------------------------------------------------

namespace Program

variable {p : Program} {s : State} {k : Nat}

/-- A breakpoint is next, but the output is full or the instruction limit is reached. -/
def CutShort (p : Program) (s : State) : Prop :=
  p.source[s.ip]? = some breakpoint ∧
    (s.spool.isFull = true ∨ p.settings.instructionLimit ≤ s.executed)

instance (p : Program) (s : State) : Decidable (p.CutShort s) := inferInstanceAs (Decidable (_ ∧ _))

/-- With a breakpoint next, the source has not ended. -/
theorem cutShort_iff :
    p.CutShort s ↔ p.source[s.ip]? = some breakpoint ∧ p.halted s = true := by
  refine and_congr_right fun hbreak => ?_
  have hip : s.ip < p.source.size := (Array.getElem?_eq_some_iff.1 hbreak).1
  rw [← Bool.not_eq_false (p.halted s), halted_eq_false_iff]
  grind

/-- No state of a run is cut short but the last one. -/
theorem cutShort_steps_iff (hk : k ≤ p.lastStep s) :
    p.CutShort (p.steps k s) ↔ k = p.lastStep s ∧ p.CutShort (p.run s) := by
  constructor
  · intro hcut
    have hhalted := (cutShort_iff.1 hcut).2
    rw [run_eq_of_halted hhalted]
    exact ⟨Nat.le_antisymm hk (halted_steps_iff.1 hhalted), hcut⟩
  · rintro ⟨rfl, hcut⟩
    rwa [run_eq_steps_lastStep] at hcut

end Program

-- ---------------------------------------------------------------------------
-- Frames of ended runs
-- ---------------------------------------------------------------------------

namespace Recording

variable {p : Program} {s : State} {budget n : Nat} {r : Recording}

theorem Records.position_le_lastStep (h : Records p s budget n r) : r.position ≤ p.lastStep s := by
  obtain ⟨hk, hgoes, -⟩ := h
  by_contra hlt
  have hhalted := hgoes (p.lastStep s) (by rw [position_ofSteps] at hlt; omega)
  rw [p.halted_steps_lastStep] at hhalted
  contradiction

theorem Records.atBreakpoint_iff (h : Records p s budget n r) :
    r.atBreakpoint = true ↔ p.source[(p.steps r.position s).ip]? = some breakpoint := by
  obtain ⟨hprogram, hshown, -⟩ := h.on_show
  rw [atBreakpoint, hprogram, hshown, beq_iff_eq]
  rfl

theorem Records.halt_ne_none_iff (h : Records p s budget n r) :
    r.shown.halt ≠ none ↔ p.halted (p.steps r.position s) = true := by
  rw [h.on_show.2.1, Program.halted, Option.isSome_iff_ne_none]
  rfl

/-- From the frame of an ended run, and from no other one, there is no step. -/
theorem Records.forward_eq_runEnded_iff (hs : p.Sound s) (h : Records p s budget n r) :
    r.forward.1 = .error .runEnded ↔ r.shown.halt ≠ none := by
  rw [← Option.isSome_iff_ne_none]
  rcases h.forward_cases hs with ⟨next, hmove, -, hgoes, -⟩ | ⟨fault, hmove, -, hended⟩
  · rw [hmove, show r.shown.halt.isSome = false from hgoes]
    exact iff_of_false (fun hfails => by cases hfails) Bool.false_ne_true
  · rw [hmove, Except.error.injEq]
    exact hended

/-- An ended run is reported as a breakpoint where it was cut short, on its last frame. -/
theorem Records.atBreakpoint_and_halt_iff (h : Records p s budget n r) :
    r.atBreakpoint = true ∧ r.shown.halt ≠ none ↔
      r.position = p.lastStep s ∧ p.CutShort (p.run s) := by
  rw [← Program.cutShort_steps_iff h.position_le_lastStep, Program.cutShort_iff, h.atBreakpoint_iff,
    h.halt_ne_none_iff]

/-- A frame that rests points at a breakpoint while the run goes on, and where it was cut short. -/
theorem Records.atBreakpoint_iff_of_rests (h : Records p s budget n r) (hrests : r.rests = true) :
    r.atBreakpoint = true ↔
      r.shown.halt = none ∨ r.position = p.lastStep s ∧ p.CutShort (p.run s) := by
  rw [← h.atBreakpoint_and_halt_iff]
  rw [rests, Bool.or_eq_true, atEnd, Option.isSome_iff_ne_none] at hrests
  constructor
  · intro hbreak
    exact or_iff_not_imp_left.2 fun hend => ⟨hbreak, hend⟩
  · rintro (hgoes | ⟨hbreak, -⟩)
    · exact hrests.resolve_left fun hend => hend hgoes
    · exact hbreak

end Recording

namespace Viewer

open Recording (Records)

variable {v : Viewer} {count : Nat}

-- ---------------------------------------------------------------------------
-- What is said
-- ---------------------------------------------------------------------------

theorem hit_ne_ended (count : Nat) :
    s!"Breakpoint hit after {count} step(s)" ≠ s!"Ran {count} step(s) to the end" := by
  intro h
  have hfirst := congrArg (fun text => text.toList.head?) h
  simp [toString, String.toList_append] at hfirst

theorem playbackStopped_ne_paused (detail : String) :
    s!"Playback stopped: {detail}" ≠ "Paused at breakpoint" := by
  intro h
  have hsecond := congrArg (fun text => text.toList[1]?) h
  simp [toString, String.toList_append] at hsecond

theorem message_resume_of_ok (hok : v.recording.toBreakpoint.1 = .ok count) :
    v.resume.message =
      if v.resume.recording.atBreakpoint then s!"Breakpoint hit after {count} step(s)"
      else s!"Ran {count} step(s) to the end" := by
  unfold resume navigate
  generalize v.recording.toBreakpoint = moved at hok ⊢
  obtain ⟨outcome, next⟩ := moved
  subst hok
  rfl

/-- What is said of resuming that succeeds depends on the frame it leads to, and on nothing else. -/
theorem message_resume_eq_iff (hok : v.recording.toBreakpoint.1 = .ok count) :
    (v.resume.message = s!"Breakpoint hit after {count} step(s)" ↔
      v.resume.recording.atBreakpoint = true) ∧
    (v.resume.message = s!"Ran {count} step(s) to the end" ↔
      ¬ v.resume.recording.atBreakpoint = true) := by
  rw [message_resume_of_ok hok]
  split
  · next hbreak => exact ⟨iff_of_true rfl hbreak, iff_of_false (hit_ne_ended count) (not_not.2 hbreak)⟩
  · next hbreak => exact ⟨iff_of_false (hit_ne_ended count).symm hbreak, iff_of_true rfl hbreak⟩

theorem message_tick_eq_iff :
    v.tick.message = "Paused at breakpoint" ↔
      v.recording.forward.1 = .ok () ∧ v.tick.recording.atBreakpoint = true := by
  rw [recording_tick]
  unfold tick
  generalize v.recording.forward = moved
  obtain ⟨outcome, next⟩ := moved
  cases outcome with
  | error fault => exact iff_of_false (playbackStopped_ne_paused _) fun h => by cases h.1
  | ok =>
    cases hbreak : next.atBreakpoint with
    | true => simp [follow, hbreak]
    | false => simp [follow, hbreak]

-- ---------------------------------------------------------------------------
-- What it says of ended runs
-- ---------------------------------------------------------------------------

/-- Wherever moves have led, of a run from any state that a program reaches, the frame on show points at a
breakpoint only while the run goes on, unless the run was cut short there. The same goes for what a viewer
says. Where resuming succeeds, it says that a breakpoint was hit if the run goes on, and that the run has
ended if not; of a run cut short it says the former. Playing pauses at a breakpoint from which there is a
step, unless its move has led to the end of a run cut short. -/
theorem notices_of_reachable {p : Program} {m budget : Nat} {first : Recording}
    (hfirst : Recording.start p (p.steps m p.start) budget = .ok first) :
    let s := p.steps m p.start
    let CutOff (r : Recording) : Prop := r.position = p.lastStep s ∧ p.CutShort (p.run s)
    (∀ actions, let r := first.walk actions
      (r.atBreakpoint = true → r.shown.halt = none) ↔ ¬ CutOff r) ∧
    ∀ v, Reachable first v →
      (∀ c count, c = 'c' ∨ c = 'C' → v.recording.toBreakpoint.1 = .ok count →
        let next := v.press (.char c)
        (next.message = s!"Breakpoint hit after {count} step(s)" ↔
          next.recording.shown.halt = none ∨ CutOff next.recording) ∧
        (next.message = s!"Ran {count} step(s) to the end" ↔
          next.recording.shown.halt ≠ none ∧ ¬ CutOff next.recording)) ∧
      ((v.tick.message = "Paused at breakpoint" → v.tick.recording.forward.1 ≠ .error .runEnded) ↔
        ¬ (v.recording.forward.1 = .ok () ∧ CutOff v.tick.recording)) := by
  intro s CutOff
  have hs := p.sound_steps m
  have hreport {n : Nat} {r : Recording} (h : Records p s budget n r) :
      r.atBreakpoint = true ∧ r.shown.halt ≠ none ↔ CutOff r := h.atBreakpoint_and_halt_iff
  constructor
  · intro actions r
    have hrecords := (Recording.records_start hs hfirst).1.leads hs (Recording.leads_trail first actions)
    rw [← hreport hrecords, not_and, not_not]
  · intro v hv
    obtain ⟨n, hrecords⟩ := hv.records hs hfirst
    constructor
    · intro c count hc hok next
      have hnext : next = v.resume := by rcases hc with rfl | rfl <;> rfl
      obtain ⟨_, hresumed⟩ := exists_records_press hs hrecords (.char c)
      have hrests : next.recording.rests = true := by
        rw [hnext]
        exact hrecords.rests_toBreakpoint hs hok
      have hbreak : next.recording.atBreakpoint = true ↔
          next.recording.shown.halt = none ∨ CutOff next.recording :=
        hresumed.atBreakpoint_iff_of_rests hrests
      have hsaid := message_resume_eq_iff hok
      rw [← hnext] at hsaid
      exact ⟨hsaid.1.trans hbreak, hsaid.2.trans ((not_congr hbreak).trans not_or)⟩
    · have hticked := hrecords.forward hs
      rw [← recording_tick] at hticked
      rw [message_tick_eq_iff, ← hreport hticked, ne_eq, hticked.forward_eq_runEnded_iff hs,
        ← and_assoc, not_and]

/-- In `.!` the output of one byte is full after the first step, and the run ends in front of its breakpoint.
Resuming and playing both speak of the breakpoint, though no step leads on from there. -/
theorem notices_of_reachable_at_full_output :
    ∃ p first,
      Program.load { tapeSize := 1, outputCapacity := 2 } #[0x2e, 0x21] #[] = .ok p ∧
      Recording.start p (p.steps 0 p.start) 300 = .ok first ∧
      let v : Viewer := { recording := first }
      v.recording.toBreakpoint.1 = .ok 1 ∧
      (v.press (.char 'c')).recording.shown.halt = some .outputFull ∧
      (v.press (.char 'c')).message = s!"Breakpoint hit after {1} step(s)" ∧
      ¬ (v.tick.message = "Paused at breakpoint" →
        v.tick.recording.forward.1 ≠ .error .runEnded) := by
  let p : Program := ⟨{ tapeSize := 1, outputCapacity := 2 }, #[0x2e, 0x21], #[],
    ⟨#[], #[none, none], #[none, none]⟩, rfl, rfl, rfl⟩
  have hfits : Archive.Fits p 300 1 := by decide
  have hfirst := Recording.start_of_fits (p.sound_steps 0) hfits
  let first := Recording.ofSteps p (p.steps 0 p.start) 300 0 0
  have hlast : p.lastStep (p.steps 0 p.start) = 1 := by
    apply Nat.le_antisymm
    · exact Program.halted_steps_iff.1 (by decide +kernel)
    · exact Program.halted_steps_eq_false_iff.1 (by decide +kernel)
  have hcut : p.CutShort (p.run (p.steps 0 p.start)) := by
    rw [Program.run_eq_steps_lastStep, hlast]
    decide +kernel
  obtain ⟨-, hviewers⟩ := notices_of_reachable hfirst
  obtain ⟨hresume, htick⟩ := hviewers { recording := first } .start
  have hcount : first.toBreakpoint.1 = .ok 1 := by decide +kernel
  have hmessage := (hresume 'c' 1 (.inl rfl) hcount).1.2 (.inr ⟨by rw [hlast]; decide +kernel, hcut⟩)
  refine ⟨p, first, rfl, hfirst, hcount, by decide +kernel, hmessage, ?_⟩
  rw [htick, not_not]
  exact ⟨by decide +kernel, by rw [hlast]; decide +kernel, hcut⟩

/-- An instruction limit of one does the same to `+!`. -/
theorem breakpoint_hit_of_ended_run :
    ∃ p first,
      Program.load { tapeSize := 1, instructionLimit := 1 } #[0x2b, 0x21] #[] = .ok p ∧
      Recording.start p p.start 300 = .ok first ∧
      let v : Viewer := { recording := first }
      let next := v.press (.char 'c')
      next.recording.shown.halt = some .limitReached ∧
      next.recording.atBreakpoint = true ∧
      next.message = "Breakpoint hit after 1 step(s)" ∧
      v.tick.message = "Paused at breakpoint" ∧
      v.tick.recording.forward.1 = .error .runEnded := by
  let p : Program := ⟨{ tapeSize := 1, instructionLimit := 1 }, #[0x2b, 0x21], #[],
    ⟨#[], #[none, none], #[none, none]⟩, rfl, rfl, rfl⟩
  have hfits : Archive.Fits p 300 1 := by decide
  have hfirst := Recording.start_of_fits (p.sound_steps 0) hfits
  exact ⟨p, _, rfl, hfirst, by decide +kernel, by decide +kernel, by decide +kernel,
    by decide +kernel, by decide +kernel⟩

end Viewer

end TapeDebugger
