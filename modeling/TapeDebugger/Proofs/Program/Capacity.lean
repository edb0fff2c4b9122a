-- SUMMARY: The brackets of a source fit into a capacity exactly when the slots that they need do, and a scan is refused at the first byte where they do not.
import TapeDebugger.Proofs.Program.Directory

/-!
# Capacity

Every opening bracket needs a slot, with or without a partner, and a closing bracket needs one of its own
only when it has no partner. `slotCount` counts these in the source, without a scan. The scan counts along:
after each byte the slots needed are those of the bytes read (`Scan.Tallies`), although whether a waiting
bracket will share its slot is not known yet. So the check made along the way is exact: the count only ever
grows, by at most one with each byte, and what is refused early would not have fit in the end. It need not
even be made at every byte (`Directory.build_eq`).
-/

namespace TapeDebugger

namespace Bracket

-- ---------------------------------------------------------------------------
-- The slots that brackets need
-- ---------------------------------------------------------------------------

/-- A closing bracket without a partner stands at `j`. -/
def Stray (source : Array UInt8) (j : Nat) : Prop :=
  source[j]? = some closing ∧ ∀ i, ¬ Partners source i j

variable {source : Array UInt8} {n m j : Nat}

theorem stray_iff : Stray source j ↔ source[j]? = some closing ∧ ∀ q < j, ¬ Balanced source q j :=
  and_congr_right forall_not_partners_closer_iff

instance (source : Array UInt8) (j : Nat) : Decidable (Stray source j) :=
  decidable_of_iff _ stray_iff.symm

/-- The slots that the brackets among the first `n` bytes need. -/
def slotsWithin (source : Array UInt8) (n : Nat) : Nat :=
  (source.extract 0 n).count opening + (List.range n).countP fun j => Stray source j

/-- The slots that the brackets of a source need: one for each opening bracket, and one for each closing
bracket without a partner. -/
def slotCount (source : Array UInt8) : Nat :=
  source.count opening + (List.range source.size).countP fun j => Stray source j

@[simp] theorem slotsWithin_zero (source : Array UInt8) : slotsWithin source 0 = 0 := by
  simp [slotsWithin]

@[simp] theorem slotsWithin_size (source : Array UInt8) :
    slotsWithin source source.size = slotCount source := by
  rw [slotsWithin, slotCount, Array.extract_size]

theorem not_stray_of_ne_closing {byte : UInt8} (hbyte : source[n]? = some byte)
    (hc : byte ≠ closing) : ¬ Stray source n := by
  rintro ⟨hclose, -⟩
  rw [hbyte] at hclose
  exact hc (Option.some.inj hclose)

/-- One more byte needs a slot if it is an opening bracket, or a closing one without a partner. -/
theorem slotsWithin_succ {byte : UInt8} (hbyte : source[n]? = some byte) :
    slotsWithin source (n + 1) =
      slotsWithin source n + if byte = opening ∨ Stray source n then 1 else 0 := by
  obtain ⟨hn, rfl⟩ := Array.getElem?_eq_some_iff.1 hbyte
  rw [slotsWithin, slotsWithin, Array.extract_succ_right (Nat.succ_pos n) hn, Array.count_push,
    List.range_succ, List.countP_append, List.countP_singleton]
  by_cases ho : source[n] = opening
  · have hstray : ¬ Stray source n := not_stray_of_ne_closing hbyte (by rw [ho]; decide)
    simp [ho, hstray]
    omega
  · simp [ho]
    omega

/-- More bytes never need fewer slots. -/
theorem slotsWithin_mono (hnm : n ≤ m) : slotsWithin source n ≤ slotsWithin source m := by
  have hopening : source.extract 0 m = source.extract 0 n ++ source.extract n m := by
    rw [Array.extract_append_extract, Nat.min_eq_left (Nat.zero_le n), Nat.max_eq_right hnm]
  have hstray : (List.range n).Sublist (List.range m) := List.range_sublist.2 hnm
  rw [slotsWithin, slotsWithin, hopening, Array.count_append, Nat.add_right_comm]
  exact Nat.le_add_right_of_le (Nat.add_le_add_left hstray.countP_le _)

end Bracket

namespace Pairing

open TapeDebugger.Bracket

-- ---------------------------------------------------------------------------
-- Counting along
-- ---------------------------------------------------------------------------

namespace Scan

variable {source : Array UInt8} {n capacity : Nat} {s : Scan}

/-- What a scan has counted after the first `n` bytes of a source: the slots that these bytes need, which
are the slots recorded and one for each bracket that waits. -/
structure Tallies (source : Array UInt8) (n : Nat) (s : Scan) : Prop where
  needed_eq : s.needed = slotsWithin source n
  needed_eq_add : s.needed = s.slots.size + s.waiting.length

theorem tallies_start (source : Array UInt8) : Tallies source 0 {} where
  needed_eq := (slotsWithin_zero source).symm
  needed_eq_add := rfl

/-- A closing bracket has no partner exactly when no bracket waits. -/
theorem Tracks.stray_iff (h : Tracks source n s) (hclose : source[n]? = some closing) :
    Stray source n ↔ s.waiting = [] := by
  simp only [Stray, hclose, true_and, h.partners_iff hclose]
  cases s.waiting with
  | nil => simp
  | cons top outer => simp

theorem Tallies.read {byte : UInt8} (h : Tallies source n s) (htracks : Tracks source n s)
    (hbyte : source[n]? = some byte) : Tallies source (n + 1) (s.read n byte) := by
  refine ⟨?_, needed_read h.needed_eq_add n byte⟩
  rw [slotsWithin_succ hbyte, ← h.needed_eq]
  have hreads := s.reads_read n byte
  generalize s.read n byte = next at hreads ⊢
  cases hreads with
  | opens => rw [if_pos (.inl rfl)]
  | closes hwaiting =>
    have hpartner : ¬ Stray source n := fun hstray => by
      simp [(htracks.stray_iff hbyte).1 hstray] at hwaiting
    rw [if_neg (not_or.2 ⟨by decide, hpartner⟩)]
    rfl
  | strays hwaiting => rw [if_pos (.inr ((htracks.stray_iff hbyte).2 hwaiting))]
  | passes ho hc =>
    rw [if_neg (not_or.2 ⟨ho, not_stray_of_ne_closing hbyte hc⟩)]
    rfl

/-- The rest of a source is read to its end if all its slots fit. Otherwise the scan is refused at the byte
that needs the first slot too many. -/
theorem Tallies.readAll_cases {bytes : List UInt8} (h : Tallies source n s)
    (htracks : Tracks source n s) (hn : n ≤ source.size) (hfits : s.needed ≤ capacity)
    (hbytes : source.toList.drop n = bytes) :
    (slotCount source ≤ capacity ∧ ∃ s', Scan.readAll capacity bytes n s = .ok s') ∨
      (capacity < slotCount source ∧
        Scan.readAll capacity bytes n s = .error (.tooManyBrackets (capacity + 1) capacity)) := by
  induction bytes generalizing n s with
  | nil =>
    have hend : n = source.size := by
      have := List.drop_eq_nil_iff.1 hbytes
      rw [Array.length_toList] at this
      omega
    refine .inl ⟨?_, s, rfl⟩
    rw [← slotsWithin_size, ← hend, ← h.needed_eq]
    exact hfits
  | cons byte bytes ih =>
    obtain ⟨hbyte, hrest⟩ := next_of_drop_eq_cons hbytes
    have hlt : n < source.size := (Array.getElem?_eq_some_iff.1 hbyte).1
    have hnext := h.read htracks hbyte
    rw [Scan.readAll]
    by_cases hover : capacity < (s.read n byte).needed
    · -- the count was within the capacity before, and one byte adds one slot at most
      have hone : (s.read n byte).needed = capacity + 1 := by
        have := slotsWithin_succ hbyte
        rw [hnext.needed_eq] at hover ⊢
        rw [h.needed_eq] at hfits
        split at this
        all_goals omega
      have hlater : slotsWithin source (n + 1) ≤ slotsWithin source source.size :=
        slotsWithin_mono hlt
      rw [slotsWithin_size, ← hnext.needed_eq] at hlater
      refine .inr ⟨Nat.lt_of_lt_of_le hover hlater, ?_⟩
      rw [if_pos hover, hone]
    · rw [if_neg hover]
      exact ih hnext (htracks.read hbyte) hlt (Nat.le_of_not_lt hover) hrest

/-- A scan that is refused stays refused, whatever bytes follow. -/
theorem readAll_append_of_error {front : List UInt8} {fault : Fault} (back : List UInt8)
    (h : Scan.readAll capacity front n s = .error fault) :
    Scan.readAll capacity (front ++ back) n s = .error fault := by
  induction front generalizing n s with
  | nil => cases h
  | cons byte front ih =>
    rw [Scan.readAll] at h
    rw [List.cons_append, Scan.readAll]
    by_cases hover : capacity < (s.read n byte).needed
    · rw [if_pos hover] at h ⊢
      exact h
    · rw [if_neg hover] at h ⊢
      exact ih h

/-- A scan that is not refused has counted its slots, those of the brackets that wait in vain included. -/
theorem size_finish (h : Scan.readAll capacity source.toList 0 {} = .ok s) :
    s.finish.size = slotCount source := by
  obtain ⟨⟨hneeded, hsum⟩, -⟩ := finished_invariant
    (motive := fun n s => s.Tallies source n ∧ s.Tracks source n)
    (fun hbyte h => ⟨h.1.read h.2 hbyte, h.2.read hbyte⟩)
    ⟨tallies_start source, tracks_start source⟩ h
  rw [← slotsWithin_size, ← hneeded, hsum]
  simp [finish]

end Scan

-- ---------------------------------------------------------------------------
-- The capacity of a pairing
-- ---------------------------------------------------------------------------

variable {capacity : Nat} {source : Array UInt8} {fault : Fault}

theorem ofSource_eq_error_iff : ofSource capacity source = .error fault ↔
    Scan.readAll capacity source.toList 0 {} = .error fault := by
  rw [ofSource]
  cases Scan.readAll capacity source.toList 0 {} with
  | error =>
    constructor
    · rintro ⟨rfl⟩
      rfl
    · rintro ⟨rfl⟩
      rfl
  | ok s => exact iff_of_false (fun h => by cases h) (fun h => by cases h)

/-- A source is paired if its slots fit, and refused with the first slot too many if they do not. -/
theorem ofSource_cases (capacity : Nat) (source : Array UInt8) :
    (slotCount source ≤ capacity ∧ ∃ p, ofSource capacity source = .ok p) ∨
      (capacity < slotCount source ∧
        ofSource capacity source = .error (.tooManyBrackets (capacity + 1) capacity)) := by
  rcases (Scan.tallies_start source).readAll_cases (Scan.tracks_start source) (Nat.zero_le _)
    (Nat.zero_le capacity) rfl with ⟨hfits, s, hread⟩ | ⟨hover, hread⟩
  · exact .inl ⟨hfits, ofSlots source.size s.finish, congrArg (Except.map _) hread⟩
  · exact .inr ⟨hover, ofSource_eq_error_iff.2 hread⟩

theorem size_slots {p : Pairing} (h : ofSource capacity source = .ok p) :
    p.slots.size = slotCount source := by
  obtain ⟨s, hread, rfl⟩ := exists_scan h
  rw [slots_ofSlots, Scan.size_finish hread]

theorem ofSource_append_of_error (h : ofSource capacity source = .error fault)
    (back : Array UInt8) : ofSource capacity (source ++ back) = .error fault := by
  rw [ofSource_eq_error_iff] at h ⊢
  rw [Array.toList_append]
  exact Scan.readAll_append_of_error back.toList h

-- ---------------------------------------------------------------------------
-- Building a directory
-- ---------------------------------------------------------------------------

namespace Directory

/-- Go on only if the slots recorded and so many more are within a capacity. -/
def ensureRoom (d : Directory) (more capacity : Nat) : Except Fault Unit :=
  let needed := d.openers.positions.size + more
  if capacity < needed then .error (.tooManyBrackets needed capacity) else .ok ()

/-- Read the byte at `position` into a directory, beside the opening brackets that wait. Only an opening
bracket, and a closing one while none waits, make sure of room. -/
def read (capacity position : Nat) (byte : UInt8) (waiting : List Nat) (d : Directory) :
    Except Fault (List Nat × Directory) :=
  if byte = opening then do
    d.ensureRoom (waiting.length + 1) capacity
    return (position :: waiting, d)
  else if byte = closing then
    match waiting with
    | [] => do
      d.ensureRoom 1 capacity
      return ([], d.record ⟨none, some position⟩)
    | opener :: outer => return (outer, d.record ⟨some opener, some position⟩)
  else
    return (waiting, d)

/-- Read the bytes from `position` on. Brackets that wait in vain are recorded without another look. -/
def readAll (capacity : Nat) : List UInt8 → Nat → List Nat → Directory → Except Fault Directory
  | [], _, waiting, d => .ok (waiting.foldl (fun d opener => d.record ⟨some opener, none⟩) d)
  | byte :: rest, position, waiting, d => do
    let (waiting, d) ← d.read capacity position byte waiting
    readAll capacity rest (position + 1) waiting d

/-- The directory of a source, built while it is read. -/
def build (capacity : Nat) (source : Array UInt8) : Except Fault Directory :=
  readAll capacity source.toList 0 [] {}

/-- The directory of some slots. -/
def ofSlots (slots : Array Slot) : Directory := slots.foldl record {}

variable {n : Nat} {s : Scan}

theorem ofSlots_push (slots : Array Slot) (slot : Slot) :
    ofSlots (slots.push slot) = (ofSlots slots).record slot := Array.foldl_push

theorem size_ofSlots (slots : Array Slot) :
    (ofSlots slots).openers.positions.size = slots.size := by
  have hpositions := Side.positions_ofList (slots.toList.map Slot.opener)
  rw [Side.ofList] at hpositions
  rw [ofSlots, ← Array.foldl_toList, foldl_record, hpositions]
  simp

theorem ensureRoom_ofSlots (slots : Array Slot) (more : Nat) :
    (ofSlots slots).ensureRoom more capacity =
      if capacity < slots.size + more then .error (.tooManyBrackets (slots.size + more) capacity)
      else .ok () := by
  rw [ensureRoom, size_ofSlots]

/-- A byte is refused if the scan needs too many slots after it. Where nothing is made sure of, no slot is
needed that was not needed before. -/
theorem read_ofSlots (hcount : s.needed = s.slots.size + s.waiting.length)
    (hfits : s.needed ≤ capacity) (n : Nat) (byte : UInt8) :
    (ofSlots s.slots).read capacity n byte s.waiting =
      if capacity < (s.read n byte).needed then
        .error (.tooManyBrackets (s.read n byte).needed capacity)
      else .ok ((s.read n byte).waiting, ofSlots (s.read n byte).slots) := by
  have hreads := s.reads_read n byte
  generalize s.read n byte = next at hreads ⊢
  unfold read
  cases hreads with
  | opens =>
    have hsum : s.slots.size + (s.waiting.length + 1) = s.needed + 1 := by omega
    rw [if_pos rfl, ensureRoom_ofSlots, hsum]
    split <;> rfl
  | closes hwaiting =>
    rw [if_neg (by decide), if_pos rfl, hwaiting, if_neg (Nat.not_lt_of_le hfits), ofSlots_push]
    rfl
  | strays hwaiting =>
    have hsum : s.slots.size + 1 = s.needed + 1 := by simp [hcount, hwaiting]
    rw [if_neg (by decide), if_pos rfl, hwaiting, ofSlots_push]
    simp only
    rw [ensureRoom_ofSlots, hsum]
    split <;> rfl
  | passes ho hc =>
    rw [if_neg ho, if_neg hc, if_neg (Nat.not_lt_of_le hfits)]
    rfl

theorem readAll_ofSlots {bytes : List UInt8} (hcount : s.needed = s.slots.size + s.waiting.length)
    (hfits : s.needed ≤ capacity) :
    readAll capacity bytes n s.waiting (ofSlots s.slots) =
      (Scan.readAll capacity bytes n s).map fun s => ofSlots s.finish := by
  induction bytes generalizing n s with
  | nil =>
    rw [readAll, Scan.readAll, Except.map, Scan.finish, ofSlots, ofSlots, Array.foldl_append]
    simp [List.foldl_map]
  | cons byte bytes ih =>
    have hnext := Scan.needed_read hcount n byte
    rw [readAll, read_ofSlots hcount hfits, Scan.readAll]
    by_cases hover : capacity < (s.read n byte).needed
    · rw [if_pos hover, if_pos hover]
      rfl
    · rw [if_neg hover, if_neg hover]
      exact ih hnext (Nat.le_of_not_lt hover)

/-- A directory built while the source is read is that of the pairing, and refused where the pairing is. -/
theorem build_eq (capacity : Nat) (source : Array UInt8) :
    build capacity source = (ofSource capacity source).map ofPairing := by
  have hread : build capacity source =
      (Scan.readAll capacity source.toList 0 {}).map fun s => ofSlots s.finish :=
    readAll_ofSlots (s := {}) rfl (Nat.zero_le capacity)
  rw [hread, ofSource]
  cases Scan.readAll capacity source.toList 0 {} with
  | error => rfl
  | ok s => exact congrArg Except.ok (congrArg ofSlots (slots_ofSlots _ _).symm)

end Directory

/-- A capacity is met exactly. The slots that a source needs are one for each opening bracket and one for
each closing bracket without a partner. The source is paired exactly when these are no more than the
capacity, and then there are so many slots. Otherwise it is refused with the first slot too many, and so is
every source that it is the beginning of. A directory that makes sure of room only at opening brackets and
at stray closing ones, and not for brackets that wait in vain, is built in the same cases. -/
theorem ofSource_within_capacity (capacity : Nat) (source : Array UInt8) :
    ((∃ p, ofSource capacity source = .ok p) ↔ slotCount source ≤ capacity) ∧
    (∀ p, ofSource capacity source = .ok p → p.slots.size = slotCount source) ∧
    (capacity < slotCount source →
      ofSource capacity source = .error (.tooManyBrackets (capacity + 1) capacity)) ∧
    (∀ fault back, ofSource capacity source = .error fault →
      ofSource capacity (source ++ back) = .error fault) ∧
    Directory.build capacity source = (ofSource capacity source).map Directory.ofPairing := by
  refine ⟨?_, fun p h => size_slots h, fun hover => ?_, fun fault back h =>
    ofSource_append_of_error h back, Directory.build_eq capacity source⟩
  · rcases ofSource_cases capacity source with ⟨hfits, hpaired⟩ | ⟨hover, hrefused⟩
    · exact iff_of_true hpaired hfits
    · refine iff_of_false ?_ (Nat.not_le_of_lt hover)
      rintro ⟨p, hpaired⟩
      rw [hrefused] at hpaired
      cases hpaired
  · rcases ofSource_cases capacity source with ⟨hfits, -⟩ | ⟨-, hrefused⟩
    · exact absurd hfits (Nat.not_le_of_lt hover)
    · exact hrefused

/-- In `][[]` the first bracket is alone, the second waits in vain and the other two share a slot. -/
example : slotCount #[0x5d, 0x5b, 0x5b, 0x5d] = 3 := by decide

end Pairing

end TapeDebugger
