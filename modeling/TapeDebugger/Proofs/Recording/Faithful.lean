-- SUMMARY: Whatever moves are made, a recording holds the run from its start up to the furthest frame ever shown.
import TapeDebugger.Proofs.Recording.Moves

/-!
# Faithful recordings

A walk is any sequence of moves, failed ones included. `Recording.trail` lists every recording that a
walk goes through, those inside of repeated moves too, so that all of it is single moves
(`leads_trail`). The invariant `Records` says that a recording is the one of some number of steps. A
single move keeps it, with the furthest position shown so far as the number of steps
(`Records.single`), and hence so does every walk (`Records.leads`).
-/

namespace TapeDebugger.Recording

/-! ## Walks -/

/-- The moves that a recording can be asked for. -/
inductive Action where
  | forward
  | back
  | rewind
  | toEnd
  | toBreakpoint
  deriving Repr, DecidableEq

/-- The recording that a move leaves, whether it succeeds or fails. -/
def act (r : Recording) : Action → Recording
  | .forward => r.forward.2
  | .back => r.back.2
  | .rewind => r.rewind.2
  | .toEnd => r.toEnd.2
  | .toBreakpoint => r.toBreakpoint.2

def walk (r : Recording) (actions : List Action) : Recording := actions.foldl act r

/-- The recordings that a repeated move goes through. -/
def pathUntil (stop : Recording → Bool) : Nat → Recording → List Recording
  | 0, _ => []
  | n + 1, r =>
    if stop r then
      []
    else
      match r.forward with
      | (.ok (), r) => r :: pathUntil stop n r
      | (.error _, r) => [r]

/-- The recordings that a move goes through, the one it leaves included. -/
def path (r : Recording) : Action → List Recording
  | .forward => [r.forward.2]
  | .back => [r.back.2]
  | .rewind => [r.rewind.2]
  | .toEnd => pathUntil atEnd r.headroom r
  | .toBreakpoint =>
    match r.forward with
    | (.ok (), r) => r :: pathUntil (fun r => r.atEnd || r.atBreakpoint) r.headroom r
    | (.error _, r) => [r]

/-- The recordings that a walk goes through after its first one. -/
def trail (r : Recording) : List Action → List Recording
  | [] => []
  | action :: actions => r.path action ++ trail (r.act action) actions

variable {p : Program} {s : State} {budget n : Nat} {r : Recording}

/-! ## Single moves -/

/-- A single move, whether it succeeds or fails. -/
inductive Single (r : Recording) : Recording → Prop where
  | forward : Single r r.forward.2
  | back : Single r r.back.2
  | rewind : Single r r.rewind.2

/-- Single moves lead from a recording through some others, the last of which is where they end. -/
inductive Leads : Recording → List Recording → Recording → Prop where
  | stay {r : Recording} : Leads r [] r
  | move {r next last : Recording} {path : List Recording} (hmove : Single r next)
      (hrest : Leads next path last) : Leads r (next :: path) last

theorem Single.leads {next : Recording} (h : Single r next) : Leads r [next] next :=
  .move h .stay

theorem Leads.trans {middle last : Recording} {path path' : List Recording}
    (h : Leads r path middle) (h' : Leads middle path' last) : Leads r (path ++ path') last := by
  induction h with
  | stay => exact h'
  | move hmove _ ih => exact .move hmove (ih h')

theorem leads_pathUntil (stop : Recording → Bool) (m count : Nat) (r : Recording) :
    Leads r (pathUntil stop m r) (forwardUntil stop m count r).2 := by
  induction m generalizing count r with
  | zero => exact .stay
  | succ m ih =>
    have hmove : Single r r.forward.2 := .forward
    rw [pathUntil, forwardUntil]
    cases stop r with
    | true => exact .stay
    | false =>
      generalize r.forward = moved at hmove ⊢
      obtain ⟨outcome, next⟩ := moved
      cases outcome with
      | ok => exact .move hmove (ih _ next)
      | error => exact hmove.leads

theorem leads_path (r : Recording) (action : Action) : Leads r (r.path action) (r.act action) := by
  cases action with
  | forward => exact Single.forward.leads
  | back => exact Single.back.leads
  | rewind => exact Single.rewind.leads
  | toEnd => exact leads_pathUntil _ _ _ r
  | toBreakpoint =>
    have hmove : Single r r.forward.2 := .forward
    rw [path, act, toBreakpoint]
    generalize r.forward = moved at hmove ⊢
    obtain ⟨outcome, next⟩ := moved
    cases outcome with
    | ok => exact .move hmove (leads_pathUntil _ _ _ next)
    | error => exact hmove.leads

/-- A trail leaves nothing out: it is single moves all the way to where the walk ends. -/
theorem leads_trail (r : Recording) (actions : List Action) :
    Leads r (r.trail actions) (r.walk actions) := by
  induction actions generalizing r with
  | nil => exact .stay
  | cons action actions ih => exact (leads_path r action).trans (ih _)

/-! ## The invariant -/

/-- A recording is that of the first `n` steps of a run, which have all been made and all fit. -/
inductive Records (p : Program) (s : State) (budget n : Nat) : Recording → Prop where
  | intro {k : Nat} (hk : k ≤ n) (hgoes : ∀ m < n, p.halted (p.steps m s) = false)
      (hfits : Archive.Fits p budget (n + 1)) :
      Records p s budget n (ofSteps p s budget n k)

/-- The furthest of some positions and those on show. -/
def furthest (n : Nat) (recordings : List Recording) : Nat :=
  (recordings.map position).foldl max n

theorem records_start (hs : p.Sound s) (h : start p s budget = .ok r) :
    Records p s budget 0 r ∧ r.position = 0 := by
  by_cases hfits : Archive.Fits p budget 1
  · rw [start_of_fits hs hfits] at h
    cases h
    exact ⟨.intro (Nat.le_refl 0) (fun m hm => absurd hm (Nat.not_lt_zero m)) hfits, rfl⟩
  · rw [start_of_not_fits hs hfits] at h
    cases h

theorem Records.back (h : Records p s budget n r) :
    Records p s budget (max n r.back.2.position) r.back.2 := by
  cases h with
  | @intro k hk hgoes hfits =>
    cases k with
    | zero =>
      rw [back_ofSteps_zero, position_ofSteps, Nat.max_eq_left hk]
      exact .intro hk hgoes hfits
    | succ k =>
      have hk' : k ≤ n := Nat.le_of_lt hk
      rw [back_ofSteps_succ hk, position_ofSteps, Nat.max_eq_left hk']
      exact .intro hk' hgoes hfits

theorem Records.rewind (h : Records p s budget n r) :
    Records p s budget (max n r.rewind.2.position) r.rewind.2 := by
  obtain ⟨-, hgoes, hfits⟩ := h
  rw [rewind_ofSteps, position_ofSteps, Nat.max_eq_left (Nat.zero_le n)]
  exact .intro (Nat.zero_le n) hgoes hfits

/-- Going forward records a frame exactly when it leads further than ever before. -/
theorem Records.forward (hs : p.Sound s) (h : Records p s budget n r) :
    Records p s budget (max n r.forward.2.position) r.forward.2 := by
  cases h with
  | @intro k hk hgoes hfits =>
  obtain hlt | rfl := Nat.lt_or_eq_of_le hk
  · rw [forward_ofSteps_of_lt hlt, position_ofSteps, Nat.max_eq_left hlt]
    exact .intro hlt hgoes hfits
  · cases hhalted : p.halted (p.steps k s) with
    | true =>
      rw [forward_ofSteps_of_halted hhalted, position_ofSteps, Nat.max_self]
      exact .intro hk hgoes hfits
    | false =>
      by_cases hnext : Archive.Fits p budget (k + 2)
      · rw [forward_ofSteps_of_fits hs hhalted hnext, position_ofSteps,
          Nat.max_eq_right (Nat.le_succ k)]
        refine .intro (Nat.le_refl _) (fun m hm => ?_) hnext
        exact Program.not_halted_steps_mono (Nat.le_of_lt_succ hm) hhalted
      · rw [forward_ofSteps_of_not_fits hs hhalted hnext, position_ofSteps, Nat.max_self]
        exact .intro hk hgoes hfits

theorem Records.single {next : Recording} (hs : p.Sound s) (h : Records p s budget n r)
    (hmove : Single r next) : Records p s budget (max n next.position) next := by
  cases hmove with
  | forward => exact h.forward hs
  | back => exact h.back
  | rewind => exact h.rewind

/-- Single moves leave the recording of the run up to the furthest position on their way. -/
theorem Records.leads {last : Recording} {path : List Recording} (hs : p.Sound s)
    (h : Records p s budget n r) (hleads : Leads r path last) :
    Records p s budget (furthest n path) last := by
  induction hleads generalizing n with
  | stay => exact h
  | move hmove _ ih => exact ih (h.single hs hmove)

/-- What is on show is a state of the run, with the output up to it. -/
theorem Records.on_show (h : Records p s budget n r) :
    r.program = p ∧ r.shown = Frame.capture p (p.steps r.position s) ∧
      r.output = (p.steps r.position s).spool.bytes := by
  obtain ⟨hk, -, -⟩ := h
  exact ⟨rfl, rfl, output_ofSteps hk⟩

/-- On the frame on show, the head is on the tape. -/
theorem Records.head_lt (hs : p.Sound s) (h : Records p s budget n r) :
    r.shown.tape.head < r.shown.tape.size := by
  obtain ⟨-, hshown, -⟩ := h.on_show
  rw [hshown]
  exact (hs.steps _).head_lt_size

/-- No frame but the newest one is a stopped state, for there is no step from there. -/
theorem Records.newest_of_halt {k : Nat} {f : Frame} (h : Records p s budget n r)
    (hf : r.archive.get? k = some f) (hstopped : f.halt ≠ none) : k = n := by
  obtain ⟨-, hgoes, -⟩ := h
  rw [get?_archive_ofSteps] at hf
  split at hf
  · rename_i hk
    cases hf
    rcases Nat.lt_or_eq_of_le (Nat.le_of_lt_succ hk) with hlt | rfl
    · exact absurd (Program.halt?_eq_none (hgoes k hlt)) hstopped
    · rfl
  · cases hf

/-- Whatever moves are made on a recording, of a run from any state that a program reaches: its
frames are those of the run from there, one for each step, and its live state is that of the newest
frame; none but the newest frame is a stopped one; one of the frames is on show; the newest frame is
the furthest that has ever been on show; the output is that of the frame on show; and the bytes of
the frames are counted exactly and are within the budget. -/
theorem walk_faithful {p : Program} {m budget : Nat} {first last : Recording} {actions : List Action}
    (hfirst : start p (p.steps m p.start) budget = .ok first) (hlast : first.walk actions = last) :
    (∀ k, last.archive.get? k =
      if k < last.length then some (Frame.capture p (p.steps k (p.steps m p.start))) else none) ∧
    (last.program = p ∧ last.live = p.steps (last.length - 1) (p.steps m p.start)) ∧
    (∀ k f, last.archive.get? k = some f → f.halt ≠ none → k + 1 = last.length) ∧
    (last.position < last.length ∧ last.archive.get? last.position = some last.shown) ∧
    (Leads first (first.trail actions) last ∧
      ((first :: first.trail actions).map position).max? = some (last.length - 1)) ∧
    last.output = (p.steps last.position (p.steps m p.start)).spool.bytes ∧
    (last.archive.budget = budget ∧ last.archive.used ≤ budget ∧ last.archive.used ≤ Word.last ∧
      last.archive.used = last.length * (72 + p.settings.tapeSize)) := by
  have hs := p.sound_steps m
  obtain ⟨hstart, hposition⟩ := records_start hs hfirst
  have hleads := leads_trail first actions
  rw [hlast] at hleads
  have hrecords := hstart.leads hs hleads
  have hmax : ((first :: first.trail actions).map position).max? =
      some (furthest 0 (first.trail actions)) := by
    rw [List.map_cons, hposition]
    rfl
  rw [hmax]
  generalize furthest 0 (first.trail actions) = n at hrecords
  have hnewest {k : Nat} {f : Frame} (hf : last.archive.get? k = some f) (hstopped : f.halt ≠ none) :
      k = n := hrecords.newest_of_halt hf hstopped
  cases hrecords with
  | @intro k hk hgoes hfits =>
    have hlength : (ofSteps p (p.steps m p.start) budget n k).length - 1 = n := by
      rw [length_ofSteps, Nat.add_sub_cancel]
    rw [hlength, length_ofSteps]
    refine ⟨fun _ => get?_archive_ofSteps, ⟨rfl, rfl⟩, fun j f hf hstopped => ?_, ⟨?_, ?_⟩,
      ⟨hleads, rfl⟩, output_ofSteps hk, rfl, hfits.2, hfits.1, rfl⟩
    · rw [hnewest hf hstopped]
    · exact Nat.lt_succ_of_le hk
    · exact get?_archive_ofSteps.trans (if_pos (Nat.lt_succ_of_le hk))

/-- From the second byte of `+.+` on, the run makes two steps. Walking to its end and one frame back
shows the first `+` written, with all three frames kept. -/
theorem walk_faithful_of_toEnd_back :
    ∃ p first,
      Program.load { tapeSize := 1, instructionLimit := 5 } #[0x2b, 0x2e, 0x2b] #[] = .ok p ∧
      start p (p.steps 1 p.start) 300 = .ok first ∧
      (first.walk [.toEnd, .back]).position = 1 ∧
      (first.walk [.toEnd, .back]).live = p.steps 2 (p.steps 1 p.start) ∧
      (first.walk [.toEnd, .back]).output = #[1] ∧
      (first.walk [.toEnd, .back]).archive.used = 219 := by
  have hfits : Archive.Fits ⟨{ tapeSize := 1, instructionLimit := 5 }, #[0x2b, 0x2e, 0x2b], #[],
    ⟨#[], #[none, none, none], #[none, none, none]⟩, rfl, rfl, rfl⟩ 300 1 := by decide
  have hfirst := start_of_fits (Program.sound_steps _ 1) hfits
  obtain ⟨-, ⟨-, hlive⟩, -, -, -, houtput, -, -, -, hused⟩ :=
    walk_faithful hfirst (rfl : walk _ [.toEnd, .back] = _)
  refine ⟨_, _, by rfl, hfirst, by decide +kernel, ?_, ?_, ?_⟩
  · exact hlive.trans (by decide +kernel)
  · exact houtput.trans (by decide +kernel)
  · exact hused.trans (by decide +kernel)

end TapeDebugger.Recording
