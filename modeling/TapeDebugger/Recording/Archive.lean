-- SUMMARY: The recorded frames in order, kept within a budget of bytes.
import TapeDebugger.Recording.Frame
import TapeDebugger.Word

/-!
# The archive

Frames are only ever added at the end, and only while their sizes fit into the budget. The sizes are
added up in one word, and nobody looks at its end before the sum is made. A sum that is no word has no
outcome: neither is there room then, nor is there none.
-/

namespace TapeDebugger

structure Archive where
  frames : Array Frame := #[]
  budget : Nat
  /-- The bytes that the frames are counted for. -/
  used : Nat := 0
  deriving Repr, DecidableEq

namespace Archive

/-- The budget of a recording that asks for no other. -/
def defaultBudget : Nat := 268435456

/-- A frame that did not fit. -/
structure Overflow where
  used : Nat
  size : Nat
  budget : Nat
  deriving Repr, DecidableEq

def Overflow.message (o : Overflow) : String :=
  s!"Snapshot memory limit exceeded: {o.used} + {o.size} > {o.budget}"

/-- The number of frames. -/
def size (a : Archive) : Nat := a.frames.size

/-- Whether so many more bytes stay within the budget, if the sum is a word. -/
def hasRoom? (a : Archive) (bytes : Nat) : Option Bool :=
  (Word.add? a.used bytes).map fun sum => decide (sum ≤ a.budget)

/-- Add a frame at the end, or tell why it does not fit. -/
@[inline] def add? (a : Archive) (f : Frame) : Option (Except Overflow Archive) :=
  match a.hasRoom? f.size with
  | some true => some (.ok { a with frames := a.frames.push f, used := a.used + f.size })
  | some false => some (.error ⟨a.used, f.size, a.budget⟩)
  | none => none

def get? (a : Archive) (position : Nat) : Option Frame := a.frames[position]?

/-! ## Room for one more -/

variable {a : Archive} {bytes : Nat}

theorem hasRoom?_of_le (hword : a.used + bytes ≤ Word.last) (hroom : a.used + bytes ≤ a.budget) :
    a.hasRoom? bytes = some true := by
  rw [hasRoom?, Word.add?_of_le hword, Option.map_some, decide_eq_true hroom]

theorem hasRoom?_of_full (hword : a.used + bytes ≤ Word.last) (hfull : a.budget < a.used + bytes) :
    a.hasRoom? bytes = some false := by
  rw [hasRoom?, Word.add?_of_le hword, Option.map_some, decide_eq_false (Nat.not_le_of_lt hfull)]

theorem hasRoom?_of_lt (h : Word.last < a.used + bytes) : a.hasRoom? bytes = none := by
  rw [hasRoom?, Word.add?_of_lt h, Option.map_none]

/-- What the test can say of a size. -/
theorem hasRoom?_cases (a : Archive) (bytes : Nat) :
    (a.used + bytes ≤ Word.last ∧ a.used + bytes ≤ a.budget ∧ a.hasRoom? bytes = some true) ∨
    (a.used + bytes ≤ Word.last ∧ a.budget < a.used + bytes ∧ a.hasRoom? bytes = some false) ∨
    (Word.last < a.used + bytes ∧ a.hasRoom? bytes = none) := by
  rcases Nat.lt_or_ge Word.last (a.used + bytes) with hover | hword
  · exact .inr (.inr ⟨hover, hasRoom?_of_lt hover⟩)
  · rcases Nat.lt_or_ge a.budget (a.used + bytes) with hfull | hroom
    · exact .inr (.inl ⟨hword, hfull, hasRoom?_of_full hword hfull⟩)
    · exact .inl ⟨hword, hroom, hasRoom?_of_le hword hroom⟩

theorem hasRoom?_eq_true_iff :
    a.hasRoom? bytes = some true ↔ a.used + bytes ≤ Word.last ∧ a.used + bytes ≤ a.budget := by
  refine ⟨fun h => ?_, fun h => hasRoom?_of_le h.1 h.2⟩
  rcases a.hasRoom?_cases bytes with ⟨hword, hroom, -⟩ | ⟨-, -, hfalse⟩ | ⟨-, hnone⟩
  · exact ⟨hword, hroom⟩
  · rw [hfalse] at h; cases h
  · rw [hnone] at h; cases h

/-- What can come of adding a frame. -/
theorem add?_cases (a : Archive) (f : Frame) :
    (a.used + f.size ≤ Word.last ∧ a.used + f.size ≤ a.budget ∧
      a.add? f = some (.ok { a with frames := a.frames.push f, used := a.used + f.size })) ∨
    (a.used + f.size ≤ Word.last ∧ a.budget < a.used + f.size ∧
      a.add? f = some (.error ⟨a.used, f.size, a.budget⟩)) ∨
    (Word.last < a.used + f.size ∧ a.add? f = none) := by
  rcases a.hasRoom?_cases f.size with ⟨hword, hroom, h⟩ | ⟨hword, hfull, h⟩ | ⟨hover, h⟩
  · exact .inl ⟨hword, hroom, by rw [add?, h]⟩
  · exact .inr (.inl ⟨hword, hfull, by rw [add?, h]⟩)
  · exact .inr (.inr ⟨hover, by rw [add?, h]⟩)

end Archive

end TapeDebugger
