-- SUMMARY: The recording of so many steps of a run with one of its frames on show, and where each single move leads.
import TapeDebugger.Recording
import TapeDebugger.Proofs.Machine.Sound
import TapeDebugger.Proofs.Machine.Steps

/-!
# Moves through a recorded run

`Recording.ofSteps` is the recording that the first `n` steps of a run leave, with frame `k` on show.
Every part of it is a function of these two numbers. A single move leads from one such recording to
another: it changes the frame on show, and going forward from the newest frame adds one, unless the
run has stopped or one more frame does not fit. A frame does not fit if the budget has no room for it, or
if the bytes of all frames would be no word (`Archive.refusal`).
-/

namespace TapeDebugger

/-- The bytes that one frame of a program is counted for. -/
def Program.frameSize (p : Program) : Nat := 72 + p.settings.tapeSize

/-- One frame is counted in a word, however long the tape is. -/
theorem Program.frameSize_le (p : Program) : p.frameSize ≤ Word.last := by
  have hlength := p.tapeSize_le
  simp only [frameSize, Tape.largest, Word.last, UInt64.size] at hlength ⊢
  omega

theorem Frame.size_capture {p : Program} {s : State} (h : p.Sound s) :
    (Frame.capture p s).size = p.frameSize := by
  rw [Frame.size, Program.frameSize, ← h.size_tape]
  rfl

/-! ## The archive of a run -/

namespace Archive

/-- So many frames are counted in a word and stay within a budget. -/
def Fits (p : Program) (budget count : Nat) : Prop :=
  count * p.frameSize ≤ Word.last ∧ count * p.frameSize ≤ budget

instance (p : Program) (budget count : Nat) : Decidable (Fits p budget count) :=
  inferInstanceAs (Decidable (_ ∧ _))

/-- Why no frame is added to so many, if one more does not fit. The sum is made before it is compared. -/
def refusal (p : Program) (budget count : Nat) : Fault :=
  if (count + 1) * p.frameSize ≤ Word.last then .budgetExhausted (count * p.frameSize) budget
  else .countOverflow

/-- The first so many frames of a run. -/
def ofSteps (p : Program) (s : State) (budget count : Nat) : Archive where
  frames := (Array.range count).map fun k => Frame.capture p (p.steps k s)
  budget
  used := count * p.frameSize

variable {p : Program} {s : State} {budget count k : Nat}

theorem ofSteps_zero : ofSteps p s budget 0 = { budget } := by
  simp [ofSteps]

@[simp] theorem size_ofSteps : (ofSteps p s budget count).size = count := by
  simp [ofSteps, size]

theorem get?_ofSteps :
    (ofSteps p s budget count).get? k =
      if k < count then some (Frame.capture p (p.steps k s)) else none := by
  rw [get?, ofSteps, Array.getElem?_map, Array.getElem?_range]
  split <;> rfl

theorem refusal_ne_runEnded : refusal p budget count ≠ .runEnded := by
  unfold refusal
  split
  · exact fun heq => by cases heq
  · decide

theorem fits_one_iff : Fits p budget 1 ↔ p.frameSize ≤ budget := by
  rw [Fits, Nat.one_mul, and_iff_right p.frameSize_le]

theorem used_ofSteps_add : (ofSteps p s budget count).used + p.frameSize = (count + 1) * p.frameSize :=
  (Nat.succ_mul count p.frameSize).symm

theorem hasRoom?_ofSteps_iff :
    (ofSteps p s budget count).hasRoom? p.frameSize = some true ↔ Fits p budget (count + 1) := by
  rw [hasRoom?_eq_true_iff, used_ofSteps_add]
  rfl

/-- The next frame is added if it fits. -/
theorem add?_ofSteps (h : p.Sound s) (hfits : Fits p budget (count + 1)) :
    (ofSteps p s budget count).add? (.capture p (p.steps count s)) =
      some (.ok (ofSteps p s budget (count + 1))) := by
  have hsize := Frame.size_capture (h.steps count)
  have hroom : (ofSteps p s budget count).hasRoom? (Frame.capture p (p.steps count s)).size = some true := by
    rw [hsize]
    exact hasRoom?_ofSteps_iff.2 hfits
  rw [add?, hroom, hsize, used_ofSteps_add]
  simp [ofSteps, Array.range_succ]

end Archive

/-! ## The recording of a run -/

namespace Recording

open Archive (Fits)

/-- The recording of the first `n` steps from a state, with frame `k` on show. -/
def ofSteps (p : Program) (s : State) (budget n k : Nat) : Recording where
  program := p
  live := p.steps n s
  archive := .ofSteps p s budget (n + 1)
  position := k
  shown := .capture p (p.steps k s)

variable {p : Program} {s : State} {budget n k : Nat}

@[simp] theorem position_ofSteps : (ofSteps p s budget n k).position = k := rfl

@[simp] theorem length_ofSteps : (ofSteps p s budget n k).length = n + 1 := Archive.size_ofSteps

theorem get?_archive_ofSteps {j : Nat} :
    (ofSteps p s budget n k).archive.get? j =
      if j < n + 1 then some (Frame.capture p (p.steps j s)) else none :=
  Archive.get?_ofSteps

/-- The output on show is what had been written when its frame was taken. -/
theorem output_ofSteps (hk : k ≤ n) :
    (ofSteps p s budget n k).output = (p.steps k s).spool.bytes :=
  Program.take_bytes_steps hk

/-- A recording begins with the frame of the state it begins at, if that frame fits. -/
theorem start_of_fits (h : p.Sound s) (hfits : Fits p budget 1) :
    start p s budget = .ok (ofSteps p s budget 0 0) := by
  have hadd := Archive.add?_ofSteps h hfits
  rw [Archive.ofSteps_zero] at hadd
  simp only [start, show Frame.capture p s = Frame.capture p (p.steps 0 s) from rfl, hadd]
  rfl

/-- The first frame alone is counted in a word, so only the budget can refuse it. -/
theorem start_of_not_fits (h : p.Sound s) (hfits : ¬ Fits p budget 1) :
    start p s budget = .error (.budgetExhausted 0 budget) := by
  have hroom : Archive.hasRoom? { budget } (Frame.capture p s).size = some false := by
    rw [Frame.size_capture h]
    refine Archive.hasRoom?_of_full ?_ ?_
    · exact Nat.le_trans (Nat.le_of_eq (Nat.zero_add _)) p.frameSize_le
    · exact Nat.lt_of_lt_of_eq (Nat.lt_of_not_le (mt Archive.fits_one_iff.2 hfits)) (Nat.zero_add _).symm
  simp only [start, Archive.add?, hroom]

/-! ## Moves among the frames -/

theorem goTo_ofSteps {position : Nat} (h : position ≤ n) :
    (ofSteps p s budget n k).goTo position = (.ok (), ofSteps p s budget n position) := by
  simp only [goTo, ofSteps, Archive.get?_ofSteps, if_pos (Nat.lt_succ_of_le h)]

theorem back_ofSteps_zero :
    (ofSteps p s budget n 0).back = (.error .atStart, ofSteps p s budget n 0) := rfl

theorem back_ofSteps_succ (hk : k < n) :
    (ofSteps p s budget n (k + 1)).back = (.ok (), ofSteps p s budget n k) :=
  goTo_ofSteps (Nat.le_of_lt hk)

theorem rewind_ofSteps :
    (ofSteps p s budget n k).rewind = (.ok (), ofSteps p s budget n 0) :=
  goTo_ofSteps (Nat.zero_le n)

/-- Before the newest frame, going forward is showing the next one. -/
theorem forward_ofSteps_of_lt (hk : k < n) :
    (ofSteps p s budget n k).forward = (.ok (), ofSteps p s budget n (k + 1)) := by
  rw [forward, position_ofSteps, length_ofSteps, if_pos (Nat.succ_lt_succ hk)]
  exact goTo_ofSteps hk

/-! ## The move that records -/

/-- The budget is looked at with the size of the frame on show, which is that of every frame. -/
theorem size_shown_ofSteps (h : p.Sound s) : (ofSteps p s budget n k).shown.size = p.frameSize :=
  Frame.size_capture (h.steps k)

theorem hasRoom?_shown_iff (h : p.Sound s) :
    (ofSteps p s budget n k).archive.hasRoom? (ofSteps p s budget n k).shown.size = some true ↔
      Fits p budget (n + 2) := by
  rw [size_shown_ofSteps h]
  exact Archive.hasRoom?_ofSteps_iff

theorem extend_ofSteps_of_halted (hhalted : p.halted (p.steps n s) = true) :
    (ofSteps p s budget n k).extend = (.error .runEnded, ofSteps p s budget n k) :=
  if_pos hhalted

theorem extend_ofSteps_of_not_fits (h : p.Sound s) (hgoes : p.halted (p.steps n s) = false)
    (hfits : ¬ Fits p budget (n + 2)) :
    (ofSteps p s budget n k).extend =
      (.error (Archive.refusal p budget (n + 1)), ofSteps p s budget n k) := by
  have hlive : ¬ (ofSteps p s budget n k).program.halted (ofSteps p s budget n k).live = true :=
    Bool.not_eq_true _ ▸ hgoes
  have hused : (ofSteps p s budget n k).archive.used + p.frameSize = (n + 2) * p.frameSize :=
    Archive.used_ofSteps_add
  rw [extend, if_neg hlive, size_shown_ofSteps h, Archive.refusal]
  rcases (ofSteps p s budget n k).archive.hasRoom?_cases p.frameSize with
    ⟨hword, hroom, -⟩ | ⟨hword, -, htest⟩ | ⟨hover, htest⟩
  · exact absurd ⟨hused ▸ hword, hused ▸ hroom⟩ hfits
  · rw [htest, if_pos (hused ▸ hword)]
    rfl
  · rw [htest, if_neg (Nat.not_le_of_lt (hused ▸ hover))]

/-- Recording one more step shows the same frame as before. -/
theorem extend_ofSteps_of_fits (h : p.Sound s) (hgoes : p.halted (p.steps n s) = false)
    (hfits : Fits p budget (n + 2)) :
    (ofSteps p s budget n k).extend = (.ok (), ofSteps p s budget (n + 1) k) := by
  have hlive : ¬ (ofSteps p s budget n k).program.halted (ofSteps p s budget n k).live = true :=
    Bool.not_eq_true _ ▸ hgoes
  have hstep : p.step (p.steps n s) = p.steps (n + 1) s := (p.steps_succ n s).symm
  rw [extend, if_neg hlive, (hasRoom?_shown_iff h).2 hfits]
  simp only [ofSteps, hstep, Archive.add?_ofSteps h hfits]

/-- On the newest frame, going forward is recording one more and showing it. -/
theorem forward_ofSteps_of_extend_ok {r : Recording}
    (h : (ofSteps p s budget n n).extend = (.ok (), r)) :
    (ofSteps p s budget n n).forward = r.goTo (n + 1) := by
  rw [forward, position_ofSteps, length_ofSteps, if_neg (Nat.lt_irrefl _), h]

theorem forward_ofSteps_of_extend_error {fault : Fault} {r : Recording}
    (h : (ofSteps p s budget n n).extend = (.error fault, r)) :
    (ofSteps p s budget n n).forward = (.error fault, r) := by
  rw [forward, position_ofSteps, length_ofSteps, if_neg (Nat.lt_irrefl _), h]

/-- Going forward fails when the run has stopped. -/
theorem forward_ofSteps_of_halted (hhalted : p.halted (p.steps n s) = true) :
    (ofSteps p s budget n n).forward = (.error .runEnded, ofSteps p s budget n n) :=
  forward_ofSteps_of_extend_error (extend_ofSteps_of_halted hhalted)

/-- Going forward fails when one more frame does not fit. -/
theorem forward_ofSteps_of_not_fits (h : p.Sound s) (hgoes : p.halted (p.steps n s) = false)
    (hfits : ¬ Fits p budget (n + 2)) :
    (ofSteps p s budget n n).forward =
      (.error (Archive.refusal p budget (n + 1)), ofSteps p s budget n n) :=
  forward_ofSteps_of_extend_error (extend_ofSteps_of_not_fits h hgoes hfits)

/-- Otherwise one step is executed, recorded and shown. -/
theorem forward_ofSteps_of_fits (h : p.Sound s) (hgoes : p.halted (p.steps n s) = false)
    (hfits : Fits p budget (n + 2)) :
    (ofSteps p s budget n n).forward = (.ok (), ofSteps p s budget (n + 1) (n + 1)) := by
  rw [forward_ofSteps_of_extend_ok (extend_ofSteps_of_fits h hgoes hfits)]
  exact goTo_ofSteps (Nat.le_refl _)

end Recording

end TapeDebugger
