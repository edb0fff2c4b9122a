-- SUMMARY: Arithmetic of counts held in 64-bit words: checked, wrapping and saturating at the word boundary.

/-!
# Words

Sizes, offsets and counters are natural numbers. Where a count is held in a 64-bit word and may meet
the word's end, the operation says what happens there: `Word.wrap` starts again from zero, `Word.succ`
stays at the last word, and `Word.add?` gives nothing.
-/

namespace TapeDebugger.Word

/-- The largest count that a word holds. -/
def last : Nat := UInt64.size - 1

/-- What a word keeps of a count. -/
def wrap (n : Nat) : Nat := n % UInt64.size

/-- The next word, or the last one again. -/
def succ (n : Nat) : Nat := min (n + 1) last

/-- The sum of two counts, if it is a word. -/
def add? (a b : Nat) : Option Nat := if a + b ≤ last then some (a + b) else none

theorem wrap_eq_self {n : Nat} (h : n ≤ last) : wrap n = n := by
  simp only [wrap, last, UInt64.size] at *; omega

theorem add?_of_le {a b : Nat} (h : a + b ≤ last) : add? a b = some (a + b) := if_pos h

theorem add?_of_lt {a b : Nat} (h : last < a + b) : add? a b = none := if_neg (Nat.not_le_of_lt h)

end TapeDebugger.Word
