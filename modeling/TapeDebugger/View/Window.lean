-- SUMMARY: A window of rows over a longer list: how many rows it has and how far it can scroll.

/-!
# Windows

A pane with a border shows a run of rows of its content, from an offset on. The offset is never so
large that rows stay empty which could be filled.
-/

namespace TapeDebugger.Window

/-- The rows between the borders of a pane; even the lowest pane counts as one row. -/
def rows (height : Nat) : Nat := max 1 (height - 2)

/-- The largest offset at which no row stays empty without need. -/
def lastOffset (total visible : Nat) : Nat := total - visible

def clamp (total visible offset : Nat) : Nat := min offset (lastOffset total visible)

/-- The part of a list that a window shows. -/
def slice (items : List α) (visible offset : Nat) : List α := (items.drop offset).take visible

theorem rows_pos (height : Nat) : 0 < rows height := by
  simp only [rows]; omega

theorem clamp_le (total visible offset : Nat) : clamp total visible offset ≤ lastOffset total visible :=
  Nat.min_le_right _ _

theorem clamp_clamp (total visible offset : Nat) :
    clamp total visible (clamp total visible offset) = clamp total visible offset := by
  simp only [clamp]; omega

theorem length_slice (items : List α) (visible offset : Nat) :
    (slice items visible offset).length = min visible (items.length - offset) := by
  simp only [slice, List.length_take, List.length_drop]

end TapeDebugger.Window
