-- SUMMARY: The bounded output of a run, which keeps the first bytes and drops the rest.

/-!
# Spool

One byte of the capacity is reserved for a terminator, so a spool takes one byte less than its
capacity, but always at least one. The byte that fills it is kept and already answered with `full`.
-/

namespace TapeDebugger

structure Spool where
  capacity : Nat
  bytes : Array UInt8 := #[]
  deriving Repr, DecidableEq

namespace Spool

/-- What a spool answers to a byte: whether it can take one more. -/
inductive Receipt where
  | accepted
  | full
  deriving Repr, DecidableEq

/-- The number of bytes that fit. -/
def limit (s : Spool) : Nat := max 1 (s.capacity - 1)

def isFull (s : Spool) : Bool := s.limit ≤ s.bytes.size

/-- Keep the byte if there is room. -/
def push (s : Spool) (byte : UInt8) : Spool :=
  if s.isFull then s else { s with bytes := s.bytes.push byte }

/-- The answer to a byte that left the spool as it is now. -/
def receipt (s : Spool) : Receipt := if s.isFull then .full else .accepted

theorem isFull_iff {s : Spool} : s.isFull = true ↔ s.limit ≤ s.bytes.size := decide_eq_true_iff

@[simp] theorem capacity_push (s : Spool) (byte : UInt8) : (s.push byte).capacity = s.capacity := by
  simp only [push]; split <;> rfl

@[simp] theorem limit_push (s : Spool) (byte : UInt8) : (s.push byte).limit = s.limit := by
  simp only [limit, capacity_push]

theorem push_of_isFull {s : Spool} (h : s.isFull) (byte : UInt8) : s.push byte = s := by
  simp only [push, h, if_true]

theorem bytes_push_of_not_isFull {s : Spool} (h : ¬ s.isFull) (byte : UInt8) :
    (s.push byte).bytes = s.bytes.push byte := by
  simp only [push, h]; rfl

/-- A spool keeps the first bytes: pushing appends, and what is beyond the limit is cut off. -/
theorem toList_push {s : Spool} (h : s.bytes.size ≤ s.limit) (byte : UInt8) :
    (s.push byte).bytes.toList = (s.bytes.toList ++ [byte]).take s.limit := by
  by_cases hf : s.isFull
  · have hsize : s.limit = s.bytes.toList.length :=
      Array.length_toList ▸ Nat.le_antisymm (isFull_iff.1 hf) h
    rw [push_of_isFull hf, hsize, List.take_left]
  · have hsize : (s.bytes.toList ++ [byte]).length ≤ s.limit := by
      rw [isFull_iff] at hf
      simp only [List.length_append, Array.length_toList, List.length_singleton]; omega
    rw [bytes_push_of_not_isFull hf, Array.toList_push, List.take_of_length_le hsize]

/-- One byte more is kept, as far as the limit allows. -/
theorem size_push {s : Spool} (h : s.bytes.size ≤ s.limit) (byte : UInt8) :
    (s.push byte).bytes.size = min s.limit (s.bytes.size + 1) := by
  rw [← Array.length_toList, toList_push h, List.length_take, List.length_append, Array.length_toList,
    List.length_singleton]

theorem size_push_le {s : Spool} (h : s.bytes.size ≤ s.limit) (byte : UInt8) :
    (s.push byte).bytes.size ≤ (s.push byte).limit := by
  rw [size_push h, limit_push]
  exact Nat.min_le_left _ _

end Spool

end TapeDebugger
