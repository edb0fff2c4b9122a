-- SUMMARY: The tape: a fixed row of byte cells with a head that stops at both ends.
import TapeDebugger.Word

/-!
# Tape

The number of cells never changes. The head moves one cell at a time and stays where it is at either
end; cells count modulo 256.

The cells are one piece of memory, and offsets within a piece have a sign. So a tape can be no longer
than half the words there are, whatever else memory has room for.
-/

namespace TapeDebugger

structure Tape where
  cells : Array UInt8
  head : Nat
  deriving Repr, DecidableEq

namespace Tape

/-- A tape of zeros with the head on the first cell. -/
def blank (size : Nat) : Tape := ⟨Array.replicate size 0, 0⟩

/-- The most cells that one piece of memory can have. -/
def largest : Nat := Word.last / 2

/-- A blank tape, if memory can be asked for it. What memory can be asked for, it is taken to have. -/
def allocate? (size : Nat) : Option Tape := if size ≤ largest then some (blank size) else none

def size (t : Tape) : Nat := t.cells.size

/-- The cell under the head; a tape without cells reads as zero. -/
def cell (t : Tape) : UInt8 := t.cells.getD t.head 0

def put (t : Tape) (value : UInt8) : Tape :=
  { t with cells := t.cells.setIfInBounds t.head value }

def moveRight (t : Tape) : Tape :=
  if t.head + 1 < t.cells.size then { t with head := t.head + 1 } else t

def moveLeft (t : Tape) : Tape := { t with head := t.head - 1 }

def increment (t : Tape) : Tape := t.put (t.cell + 1)

def decrement (t : Tape) : Tape := t.put (t.cell - 1)

/-! ## Size and head -/

theorem allocate?_of_le {n : Nat} (h : n ≤ largest) : allocate? n = some (blank n) := if_pos h

theorem isSome_allocate?_iff {n : Nat} : (allocate? n).isSome = true ↔ n ≤ largest := by
  simp only [allocate?]
  split <;> simp [*]

@[simp] theorem size_blank (n : Nat) : (blank n).size = n := Array.size_replicate

@[simp] theorem size_put (t : Tape) (value : UInt8) : (t.put value).size = t.size :=
  Array.size_setIfInBounds

@[simp] theorem head_put (t : Tape) (value : UInt8) : (t.put value).head = t.head := rfl

@[simp] theorem size_moveRight (t : Tape) : t.moveRight.size = t.size := by
  simp only [moveRight]; split <;> rfl

@[simp] theorem size_moveLeft (t : Tape) : t.moveLeft.size = t.size := rfl

theorem head_moveRight (t : Tape) (h : t.head < t.size) :
    t.moveRight.head = min (t.head + 1) (t.size - 1) := by
  simp only [moveRight, size] at *; split <;> simp_all <;> omega

@[simp] theorem head_moveLeft (t : Tape) : t.moveLeft.head = t.head - 1 := rfl

theorem cell_put (t : Tape) (value : UInt8) (h : t.head < t.size) : (t.put value).cell = value := by
  simp only [size] at h; simp [cell, put, h]

@[simp] theorem put_put (t : Tape) (value value' : UInt8) :
    (t.put value).put value' = t.put value' := by
  simp [put]

@[simp] theorem put_cell (t : Tape) : t.put t.cell = t := by
  simp only [put, cell, Array.setIfInBounds]
  split
  · simp_all
  · rfl

end Tape

end TapeDebugger
