-- SUMMARY: A spool keeps the first bytes that it is given, and its answers tell how far it is filled.
import TapeDebugger.Machine.Spool

/-!
# Filling a spool

A spool answers every byte. Without room it answers at once and drops the byte; with room it keeps the byte
first and looks for room after that. So `full` is the answer to the byte that takes the last room as well as
to every dropped byte, and the answer alone does not say which of the two it was. The order of the answers
does: the bytes are kept up to the first `full`, that one included (`toList_writeAll_of_accepted`), and none
is kept behind it (`writeAll_append_of_full`).
-/

namespace TapeDebugger.Spool

variable {s : Spool} {byte : UInt8} {bytes : List UInt8} {i : Nat}

-- ---------------------------------------------------------------------------
-- Answers
-- ---------------------------------------------------------------------------

/-- Take a byte and answer it. -/
def write (s : Spool) (byte : UInt8) : Receipt × Spool :=
  if s.isFull then (.full, s)
  else
    let kept : Spool := { s with bytes := s.bytes.push byte }
    (if kept.isFull then .full else .accepted, kept)

/-- Take some bytes one after the other, and list the answers. -/
def writeAll : Spool → List UInt8 → List Receipt × Spool
  | s, [] => ([], s)
  | s, byte :: rest =>
    let (receipt, next) := s.write byte
    let (receipts, last) := writeAll next rest
    (receipt :: receipts, last)

/-- The answer to a byte can be read off the spool that it leaves, dropped or not. -/
theorem write_eq (s : Spool) (byte : UInt8) :
    s.write byte = ((s.push byte).receipt, s.push byte) := by
  by_cases h : s.isFull
  · rw [write, if_pos h, push_of_isFull h, receipt, if_pos h]
  · rw [write, if_neg h, push, if_neg h]
    rfl

theorem writeAll_cons (s : Spool) (byte : UInt8) (rest : List UInt8) :
    s.writeAll (byte :: rest) =
      ((s.push byte).receipt :: ((s.push byte).writeAll rest).1, ((s.push byte).writeAll rest).2) := by
  rw [writeAll, write_eq]

/-- Whether the bytes are answered makes no difference to what is kept of them. -/
theorem spool_writeAll (s : Spool) (bytes : List UInt8) : (s.writeAll bytes).2 = bytes.foldl push s := by
  induction bytes generalizing s with
  | nil => rfl
  | cons byte rest ih => rw [writeAll_cons, List.foldl_cons, ih]

theorem length_receipts (s : Spool) (bytes : List UInt8) :
    (s.writeAll bytes).1.length = bytes.length := by
  induction bytes generalizing s with
  | nil => rfl
  | cons byte rest ih => rw [writeAll_cons, List.length_cons, List.length_cons, ih]

-- ---------------------------------------------------------------------------
-- One byte
-- ---------------------------------------------------------------------------

theorem receipt_push (h : s.bytes.size ≤ s.limit) (byte : UInt8) :
    (s.push byte).receipt = if s.limit ≤ s.bytes.size + 1 then .full else .accepted := by
  have hfull : (s.push byte).isFull = true ↔ s.limit ≤ s.bytes.size + 1 := by
    rw [isFull_iff, size_push h, limit_push]
    omega
  simp only [receipt, hfull]

-- ---------------------------------------------------------------------------
-- Any number of bytes
-- ---------------------------------------------------------------------------

theorem take_take_append {α : Type} (front rest : List α) (n : Nat) :
    (front.take n ++ rest).take n = (front ++ rest).take n := by
  have hroom : n - min n front.length = n - front.length := by omega
  rw [List.take_append, List.take_append, List.take_take, Nat.min_self, List.length_take, hroom]

/-- What is beyond the limit is cut off, however the bytes came. -/
theorem toList_foldl_push (h : s.bytes.size ≤ s.limit) (bytes : List UInt8) :
    (bytes.foldl push s).bytes.toList = (s.bytes.toList ++ bytes).take s.limit := by
  induction bytes generalizing s with
  | nil =>
    rw [List.append_nil, List.take_of_length_le (by rwa [Array.length_toList])]
    rfl
  | cons byte rest ih =>
    rw [List.foldl_cons, ih (size_push_le h byte), limit_push, toList_push h, take_take_append,
      List.append_assoc, List.singleton_append]

theorem limit_foldl_push (s : Spool) (bytes : List UInt8) : (bytes.foldl push s).limit = s.limit := by
  induction bytes generalizing s with
  | nil => rfl
  | cons byte rest ih => rw [List.foldl_cons, ih, limit_push]

/-- The answer to a byte counts the bytes kept before and those given since, whether these were kept or not:
from the limit on, all answers are the same. -/
theorem getElem?_receipts (h : s.bytes.size ≤ s.limit) (hi : i < bytes.length) :
    (s.writeAll bytes).1[i]? =
      some (if s.limit ≤ s.bytes.size + i + 1 then .full else .accepted) := by
  induction bytes generalizing s i with
  | nil => exact absurd hi (Nat.not_lt_zero i)
  | cons byte rest ih =>
    rw [writeAll_cons]
    cases i with
    | zero => rw [List.getElem?_cons_zero, receipt_push h, Nat.add_zero]
    | succ i =>
      have hcount : s.limit ≤ min s.limit (s.bytes.size + 1) + i + 1 ↔
          s.limit ≤ s.bytes.size + (i + 1) + 1 := by omega
      rw [List.getElem?_cons_succ, ih (size_push_le h byte) (Nat.lt_of_succ_lt_succ hi), limit_push,
        size_push h]
      simp only [hcount]

/-- A full spool stays as it is. -/
theorem foldl_push_of_isFull (h : s.isFull) (bytes : List UInt8) : bytes.foldl push s = s := by
  induction bytes with
  | nil => rfl
  | cons byte rest ih => rw [List.foldl_cons, push_of_isFull h, ih]

-- ---------------------------------------------------------------------------
-- From an empty spool
-- ---------------------------------------------------------------------------

variable {capacity : Nat}

theorem toList_writeAll (capacity : Nat) (bytes : List UInt8) :
    (writeAll { capacity } bytes).2.bytes.toList = bytes.take (max 1 (capacity - 1)) := by
  rw [spool_writeAll, toList_foldl_push (Nat.zero_le _)]
  rfl

theorem isFull_writeAll_iff (capacity : Nat) (bytes : List UInt8) :
    (writeAll { capacity } bytes).2.isFull = true ↔ max 1 (capacity - 1) ≤ bytes.length := by
  have hlimit : (writeAll { capacity } bytes).2.limit = max 1 (capacity - 1) := by
    rw [spool_writeAll, limit_foldl_push]
    rfl
  rw [isFull_iff, hlimit, ← Array.length_toList, toList_writeAll, List.length_take]
  omega

theorem getElem?_receipts_start (capacity : Nat) (hi : i < bytes.length) :
    (writeAll { capacity } bytes).1[i]? =
      some (if max 1 (capacity - 1) ≤ i + 1 then .full else .accepted) := by
  have hanswer := getElem?_receipts (s := { capacity }) (Nat.zero_le _) hi
  rwa [Array.size_empty, Nat.zero_add] at hanswer

/-- Some answer is `full` as soon as the limit is reached, and no earlier. -/
theorem full_mem_receipts_iff (capacity : Nat) (bytes : List UInt8) :
    .full ∈ (writeAll { capacity } bytes).1 ↔ max 1 (capacity - 1) ≤ bytes.length := by
  constructor
  · intro hmem
    obtain ⟨i, hi⟩ := List.mem_iff_getElem?.1 hmem
    have hlt : i < bytes.length := by
      rw [← length_receipts { capacity } bytes]
      exact (List.getElem?_eq_some_iff.1 hi).1
    rw [getElem?_receipts_start capacity hlt] at hi
    split at hi
    · rename_i hle
      exact Nat.le_trans hle hlt
    · cases hi
  · intro hle
    have hlt : bytes.length - 1 < bytes.length := by omega
    have hlast := getElem?_receipts_start capacity hlt
    rw [if_pos (by omega)] at hlast
    exact List.mem_of_getElem? hlast

theorem toList_writeAll_of_accepted (h : .full ∉ (writeAll { capacity } bytes).1) (byte : UInt8) :
    (writeAll { capacity } (bytes ++ [byte])).2.bytes.toList = bytes ++ [byte] := by
  rw [full_mem_receipts_iff, Nat.not_le] at h
  rw [toList_writeAll, List.take_of_length_le]
  rw [List.length_append, List.length_singleton]
  exact h

theorem writeAll_append_of_full (h : .full ∈ (writeAll { capacity } bytes).1) (later : List UInt8) :
    (writeAll { capacity } (bytes ++ later)).2 = (writeAll { capacity } bytes).2 := by
  rw [full_mem_receipts_iff, ← isFull_writeAll_iff, spool_writeAll] at h
  rw [spool_writeAll, spool_writeAll, List.foldl_append, foldl_push_of_isFull h]

/-- A spool of any capacity keeps the first bytes of all that it is given, as many as its limit. What it
answers to a byte depends on the number of that byte only, and being full on the number of all bytes. Until an
answer is `full` every byte is kept, the one that is answered so included, and after it nothing changes. -/
theorem keeps_first_bytes (capacity : Nat) (bytes : List UInt8) :
    limit { capacity } = max 1 (capacity - 1) ∧
    (writeAll { capacity } bytes).2 = bytes.foldl push { capacity } ∧
    (writeAll { capacity } bytes).2.bytes.toList =
      bytes.take (min bytes.length (max 1 (capacity - 1))) ∧
    (writeAll { capacity } bytes).1.length = bytes.length ∧
    (∀ i, i < bytes.length → (writeAll { capacity } bytes).1[i]? =
      some (if max 1 (capacity - 1) ≤ i + 1 then .full else .accepted)) ∧
    ((writeAll { capacity } bytes).2.isFull = true ↔ max 1 (capacity - 1) ≤ bytes.length) ∧
    (.full ∉ (writeAll { capacity } bytes).1 →
      ∀ byte, (writeAll { capacity } (bytes ++ [byte])).2.bytes.toList = bytes ++ [byte]) ∧
    (.full ∈ (writeAll { capacity } bytes).1 →
      ∀ later, (writeAll { capacity } (bytes ++ later)).2 = (writeAll { capacity } bytes).2) := by
  refine ⟨rfl, spool_writeAll _ bytes, ?_, length_receipts _ bytes,
    fun i hi => getElem?_receipts_start capacity hi, isFull_writeAll_iff capacity bytes,
    toList_writeAll_of_accepted, writeAll_append_of_full⟩
  rw [toList_writeAll, List.take_eq_take_iff]
  omega

/-- A spool of capacity 3 keeps two bytes. The second one fills it and is answered like the third one, which
is dropped. -/
example :
    writeAll { capacity := 3 } [97, 98, 99] = ([.accepted, .full, .full], ⟨3, #[97, 98]⟩) := by decide

end TapeDebugger.Spool
