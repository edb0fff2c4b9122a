-- SUMMARY: What an archive has counted after any additions, and for which sizes its test for room has an answer.
import TapeDebugger.Recording.Archive

/-!
# The budget of an archive

An archive counts the bytes of its frames exactly and is never counted for more than its budget, whatever it
has been offered (`Filled.accounts`).

The test for room adds a size to the count before it compares. As long as the sum is a word, the test answers,
and rightly so (`exists_hasRoom?_of_le`). Otherwise it ought to say that there is no room, and it never does
(`Accounts.unanswered_of_lt`). A sum that is looked at stops the process. One that is not looked at loses a
whole turn, and what is left of it is less than the count alone, so there seems to be room.
-/

namespace TapeDebugger

/-- A sum of two words that is no word loses a whole turn. -/
theorem Word.wrap_add_lt {a b : Nat} (hb : b ≤ last) (h : last < a + b) (ha : a ≤ last) :
    wrap (a + b) < a := by
  simp only [wrap, last, UInt64.size] at *
  omega

namespace Archive

variable {a : Archive} {f : Frame} {budget size : Nat}

-- ---------------------------------------------------------------------------
-- Additions
-- ---------------------------------------------------------------------------

/-- The bytes of all frames of an archive. -/
def held (a : Archive) : Nat := a.frames.foldl (fun bytes f => bytes + f.size) 0

/-- Offer a frame. It is added if there is room for it. -/
def offer (a : Archive) (f : Frame) : Archive :=
  match a.add? f with
  | some (.ok next) => next
  | some (.error _) | none => a

/-- An archive that offers lead to, from an empty one. -/
inductive Filled (budget : Nat) : Archive → Prop where
  | empty : Filled budget { budget }
  | offer {a : Archive} (f : Frame) (h : Filled budget a) : Filled budget (a.offer f)

theorem held_empty (budget : Nat) : held { budget } = 0 := Array.foldl_empty

theorem held_push (a : Archive) (f : Frame) (used : Nat) :
    held { a with frames := a.frames.push f, used } = a.held + f.size := Array.foldl_push

/-- An offer that is not taken changes nothing. -/
theorem offer_eq_self (h : ∀ next, a.add? f ≠ some (.ok next)) : a.offer f = a := by
  unfold offer
  split
  · rename_i next hadded
    exact absurd hadded (h next)
  · rfl
  · rfl

-- ---------------------------------------------------------------------------
-- The count
-- ---------------------------------------------------------------------------

/-- An archive counts what it holds, and no more than its budget. -/
structure Accounts (budget : Nat) (a : Archive) : Prop where
  budget_eq : a.budget = budget
  used_eq : a.used = a.held
  used_le : a.used ≤ budget

theorem accounts_empty (budget : Nat) : Accounts budget { budget } where
  budget_eq := rfl
  used_eq := (held_empty budget).symm
  used_le := Nat.zero_le budget

theorem Accounts.offer (h : Accounts budget a) (f : Frame) : Accounts budget (a.offer f) := by
  rcases a.add?_cases f with ⟨-, hroom, hadd⟩ | ⟨-, -, hadd⟩ | ⟨-, hadd⟩
  · have hadded : a.offer f = { a with frames := a.frames.push f, used := a.used + f.size } := by
      simp only [Archive.offer, hadd]
    rw [hadded]
    refine ⟨h.budget_eq, ?_, h.budget_eq ▸ hroom⟩
    rw [held_push, ← h.used_eq]
  all_goals
    rw [offer_eq_self fun next => by simp [hadd]]
    exact h

/-- Whatever an archive has been offered, it accounts for what it holds. -/
theorem Filled.accounts (h : Filled budget a) : Accounts budget a := by
  induction h with
  | empty => exact accounts_empty budget
  | offer f _ ih => exact ih.offer f

/-- A frame that is refused is one that the budget has no room for. -/
theorem of_add?_eq_error {overflow : Overflow} (h : a.add? f = some (.error overflow)) :
    overflow = ⟨a.used, f.size, a.budget⟩ ∧ a.budget < a.used + f.size := by
  rcases a.add?_cases f with ⟨-, -, hadd⟩ | ⟨-, hfull, hadd⟩ | ⟨-, hadd⟩
  · rw [hadd] at h
    cases h
  · rw [hadd] at h
    cases h
    exact ⟨rfl, hfull⟩
  · rw [hadd] at h
    cases h

-- ---------------------------------------------------------------------------
-- The test for room
-- ---------------------------------------------------------------------------

/-- As long as the sum is a word, the test compares it with the budget. -/
theorem exists_hasRoom?_of_le (h : a.used + size ≤ Word.last) :
    ∃ answer, a.hasRoom? size = some answer ∧ (answer = true ↔ a.used + size ≤ a.budget) := by
  rcases a.hasRoom?_cases size with ⟨-, hroom, htest⟩ | ⟨-, hfull, htest⟩ | ⟨hover, -⟩
  · exact ⟨true, htest, iff_of_true rfl hroom⟩
  · exact ⟨false, htest, iff_of_false Bool.false_ne_true (Nat.not_le_of_lt hfull)⟩
  · exact absurd h (Nat.not_le_of_lt hover)

/-- Otherwise it does not answer, and made without a look at its end the sum would be within the budget. -/
theorem Accounts.unanswered_of_lt (h : Accounts budget a) (hbudget : budget ≤ Word.last)
    (hsize : size ≤ Word.last) (hover : Word.last < a.used + size) :
    a.hasRoom? size = none ∧ Word.wrap (a.used + size) ≤ budget := by
  have hused : a.used ≤ Word.last := Nat.le_trans h.used_le hbudget
  refine ⟨hasRoom?_of_lt hover, Nat.le_trans (Nat.le_of_lt ?_) h.used_le⟩
  exact Word.wrap_add_lt hsize hover hused

/-- Whatever frames an archive has been offered, it counts exactly what it holds, and no more than its budget.
A frame is refused only if the budget has no room for it, and an offer that is not taken, for this reason or
because the sum is no word, changes nothing.

The test for room answers for the sizes with which the count stays a word, and its answers are right. For any
other size there is no room either, but that is never the answer: there is none, or, where the sum is made
without a look at its end, the wrong one. -/
theorem room_within_word (hbudget : budget ≤ Word.last) (ha : Filled budget a) :
    a.budget = budget ∧
    (a.used = a.held ∧ a.used ≤ budget) ∧
    (∀ f overflow, a.add? f = some (.error overflow) →
      overflow = ⟨a.used, f.size, budget⟩ ∧ budget < a.used + f.size) ∧
    (∀ f, (∀ next, a.add? f ≠ some (.ok next)) → a.offer f = a) ∧
    ∀ size, size ≤ Word.last →
      (a.used + size ≤ Word.last →
        ∃ answer, a.hasRoom? size = some answer ∧ (answer = true ↔ a.used + size ≤ budget)) ∧
      (Word.last < a.used + size →
        budget < a.used + size ∧ a.hasRoom? size = none ∧ Word.wrap (a.used + size) ≤ budget) := by
  have h := ha.accounts
  obtain rfl := h.budget_eq
  refine ⟨rfl, ⟨h.used_eq, h.used_le⟩, fun f overflow => of_add?_eq_error, fun f => offer_eq_self,
    fun size hsize => ⟨exists_hasRoom?_of_le, fun hover => ?_⟩⟩
  exact ⟨Nat.lt_of_le_of_lt hbudget hover, h.unanswered_of_lt hbudget hsize hover⟩

/-- A frame of one cell is added to a budget of 150 bytes, which leaves room for 77. A frame of 6 cells is
refused after it. -/
theorem room_within_word_of_one_cell :
    let frame (cells : Nat) : Frame :=
      { tape := .blank cells, ip := 0, cursor := 0, written := 0, executed := 0, halt := none }
    let a : Archive := offer { budget := 150 } (frame 1)
    150 ≤ Word.last ∧ Filled 150 a ∧
    a.used = 73 ∧ a.hasRoom? 77 = some true ∧ a.hasRoom? 78 = some false ∧
    a.add? (frame 6) = some (.error ⟨73, 78, 150⟩) ∧ a.offer (frame 6) = a := by
  intro frame a
  have hbudget : 150 ≤ Word.last := by decide
  have ha : Filled 150 a := .offer (frame 1) .empty
  obtain ⟨hsame, ⟨hexact, -⟩, -, hkept, hroom⟩ := room_within_word hbudget ha
  have hheld : a.held = 73 := by decide +kernel
  have hused : a.used = 73 := hexact.trans hheld
  have herror : a.add? (frame 6) = some (.error ⟨73, 78, 150⟩) := by
    have hfull : a.hasRoom? (frame 6).size = some false := by decide +kernel
    rw [add?, hfull, hused]
    rfl
  obtain ⟨granted, hgranted, hyes⟩ := (hroom 77 (by decide)).1 (by rw [hused]; decide)
  obtain ⟨refused, hrefused, hno⟩ := (hroom 78 (by decide)).1 (by rw [hused]; decide)
  rw [hused] at hyes hno
  obtain rfl : granted = true := hyes.2 (by decide)
  obtain rfl : refused = false := Bool.eq_false_iff.2 fun h => absurd (hno.1 h) (by decide)
  exact ⟨hbudget, ha, hused, hgranted, hrefused, herror, hkept _ fun next => by simp [herror]⟩

/-- With one frame held, the test has no answer for the largest size of all. There is no room for it, and a sum
made without a look at its end would say that there is. -/
theorem unanswered_beyond_word :
    ∃ (budget size : Nat) (a : Archive),
      budget ≤ Word.last ∧ size ≤ Word.last ∧ Filled budget a ∧ a.used = a.held ∧
      ¬ a.used + size ≤ budget ∧ a.hasRoom? size = none ∧ Word.wrap (a.used + size) ≤ budget := by
  let frame : Frame :=
    { tape := .blank 1, ip := 0, cursor := 0, written := 0, executed := 0, halt := none }
  exact ⟨150, Word.last, offer { budget := 150 } frame, by decide, by decide, .offer frame .empty,
    by decide +kernel, by decide +kernel, by decide +kernel, by decide +kernel⟩

end Archive

end TapeDebugger
