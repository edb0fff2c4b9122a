-- SUMMARY: Brackets looked up by way of their slots: no slot leads out of the arrays, and the partner found is that of the pairing.
import TapeDebugger.Proofs.Program.Pairing
import Mathlib.Data.List.Induction
import Mathlib.Logic.Function.Basic

/-!
# Directories

A pairing finds partners in tables by position. They may as well be found in two steps: a map from
the position of a bracket to its slot, and in that slot the bracket on the other side. `Directory` is
this table. Its second step goes into an array and could miss it; that it never does is
`slotOf?_lt_size`, and that both tables find the same partners is `Directory.closerOf?_eq` and
`Directory.openerOf?_eq`.
-/

namespace TapeDebugger.Pairing

open TapeDebugger.Bracket

/-! ## One side of the slots -/

/-- The opening or the closing brackets of all slots, and the slot of each of them. -/
structure Side where
  /-- The position in each slot; a slot may have none on this side. -/
  positions : Array (Option Nat) := #[]
  /-- The slot by the position, a finite map. -/
  slotOf? : Nat → Option Nat := fun _ => none

namespace Side

def add (s : Side) (position : Option Nat) : Side where
  positions := s.positions.push position
  slotOf? :=
    match position with
    | some i => Function.update s.slotOf? i (some s.positions.size)
    | none => s.slotOf?

def ofList (positions : List (Option Nat)) : Side := positions.foldl add {}

@[simp] theorem positions_add (s : Side) (position : Option Nat) :
    (s.add position).positions = s.positions.push position := rfl

@[simp] theorem slotOf?_add_none (s : Side) : (s.add none).slotOf? = s.slotOf? := rfl

@[simp] theorem slotOf?_add_self (s : Side) (i : Nat) :
    (s.add (some i)).slotOf? i = some s.positions.size :=
  Function.update_self ..

theorem slotOf?_add_of_ne (s : Side) {i j : Nat} (h : i ≠ j) :
    (s.add (some j)).slotOf? i = s.slotOf? i :=
  Function.update_of_ne h ..

variable {positions : List (Option Nat)} {i k : Nat}

theorem ofList_append_singleton (positions : List (Option Nat)) (position : Option Nat) :
    ofList (positions ++ [position]) = (ofList positions).add position := by
  rw [ofList, List.foldl_append]
  rfl

@[simp] theorem positions_ofList (positions : List (Option Nat)) :
    (ofList positions).positions = positions.toArray := by
  induction positions using List.reverseRecOn with
  | nil => rfl
  | append_singleton positions position ih =>
    rw [ofList_append_singleton, positions_add, ih, List.push_toArray]

/-- A slot that is found holds the position. -/
theorem getElem?_of_slotOf? (h : (ofList positions).slotOf? i = some k) :
    positions[k]? = some (some i) := by
  induction positions using List.reverseRecOn with
  | nil => cases h
  | append_singleton positions position ih =>
    have hold (h : (ofList positions).slotOf? i = some k) :
        (positions ++ [position])[k]? = some (some i) := by
      obtain ⟨hk, -⟩ := List.getElem?_eq_some_iff.1 (ih h)
      rw [List.getElem?_append_left hk]
      exact ih h
    rw [ofList_append_singleton] at h
    cases position with
    | none => exact hold h
    | some j =>
      by_cases hij : i = j
      · subst hij
        rw [slotOf?_add_self, positions_ofList, List.size_toArray] at h
        cases h
        exact List.getElem?_concat_length
      · rw [slotOf?_add_of_ne _ hij] at h
        exact hold h

/-- A position in a slot is found in some slot. -/
theorem exists_slotOf? (h : some i ∈ positions) : ∃ k, (ofList positions).slotOf? i = some k := by
  induction positions using List.reverseRecOn with
  | nil => cases h
  | append_singleton positions position ih =>
    rw [ofList_append_singleton]
    cases position with
    | none => exact ih (by simpa using h)
    | some j =>
      by_cases hij : i = j
      · subst hij
        exact ⟨_, slotOf?_add_self _ i⟩
      · rw [slotOf?_add_of_ne _ hij]
        exact ih (by simpa [hij] using h)

end Side

/-! ## The directory of a pairing -/

/-- Two parallel arrays of brackets, with a map to their slots from either side. -/
structure Directory where
  openers : Side := {}
  closers : Side := {}

namespace Directory

def record (d : Directory) (slot : Slot) : Directory :=
  ⟨d.openers.add slot.opener, d.closers.add slot.closer⟩

/-- The directory of a pairing, slot by slot. -/
def ofPairing (p : Pairing) : Directory := p.slots.foldl record {}

/-- What stands on the other side of a position's slot; no answer when that slot is missing. -/
def across? (here there : Side) (position : Nat) : Option (Option Nat) :=
  match here.slotOf? position with
  | some slot => there.positions[slot]?
  | none => some none

def closerOf? (d : Directory) : Nat → Option (Option Nat) := across? d.openers d.closers

def openerOf? (d : Directory) : Nat → Option (Option Nat) := across? d.closers d.openers

theorem foldl_record (slots : List Slot) (d : Directory) :
    slots.foldl record d =
      ⟨(slots.map Slot.opener).foldl Side.add d.openers,
        (slots.map Slot.closer).foldl Side.add d.closers⟩ := by
  induction slots generalizing d with
  | nil => rfl
  | cons slot slots ih =>
    rw [List.foldl_cons, ih]
    rfl

theorem ofPairing_eq (p : Pairing) :
    ofPairing p =
      ⟨.ofList (p.slots.toList.map Slot.opener), .ofList (p.slots.toList.map Slot.closer)⟩ := by
  rw [ofPairing, ← Array.foldl_toList, foldl_record]
  rfl

/-- No slot leads out of either array. -/
theorem slotOf?_lt_size {p : Pairing} {i k : Nat}
    (h : (ofPairing p).openers.slotOf? i = some k ∨ (ofPairing p).closers.slotOf? i = some k) :
    k < (ofPairing p).openers.positions.size ∧ k < (ofPairing p).closers.positions.size := by
  have hk : k < p.slots.toList.length := by
    rw [ofPairing_eq] at h
    rcases h with h | h
    · simpa using (List.getElem?_eq_some_iff.1 (Side.getElem?_of_slotOf? h)).1
    · simpa using (List.getElem?_eq_some_iff.1 (Side.getElem?_of_slotOf? h)).1
  simpa [ofPairing_eq] using hk

end Directory

/-! ## Brackets that stay alone -/

/-- What a scan knows of the brackets that it has recorded: no slot lacks its closing bracket, and
where the opening one is missing, there is none. -/
structure Scan.Closes (source : Array UInt8) (s : Scan) : Prop where
  closer_ne_none : ∀ slot ∈ s.slots, slot.closer ≠ none
  not_partners : ∀ j, ⟨none, some j⟩ ∈ s.slots → ∀ i, ¬ Partners source i j

namespace Scan

variable {source : Array UInt8} {n : Nat} {s : Scan}

theorem closes_start (source : Array UInt8) : Closes source {} where
  closer_ne_none slot h := by simp at h
  not_partners j h := by simp at h

theorem Closes.read {byte : UInt8} (h : Closes source s) (htracks : Tracks source n s)
    (hbyte : source[n]? = some byte) : Closes source (s.read n byte) := by
  have hreads := s.reads_read n byte
  generalize s.read n byte = next at hreads ⊢
  cases hreads with
  | opens => exact ⟨h.closer_ne_none, h.not_partners⟩
  | closes hwaiting =>
    refine ⟨fun slot hslot => ?_, fun j hj i => ?_⟩
    · rcases Array.mem_push.1 hslot with hold | rfl
      · exact h.closer_ne_none slot hold
      · exact Option.some_ne_none n
    · rcases Array.mem_push.1 hj with hold | heq
      · exact h.not_partners j hold i
      · cases heq
  | strays hwaiting =>
    refine ⟨fun slot hslot => ?_, fun j hj i => ?_⟩
    · rcases Array.mem_push.1 hslot with hold | rfl
      · exact h.closer_ne_none slot hold
      · exact Option.some_ne_none n
    · rcases Array.mem_push.1 hj with hold | heq
      · exact h.not_partners j hold i
      · cases heq
        rw [htracks.partners_iff hbyte, hwaiting, List.getElem?_nil]
        exact (Option.some_ne_none i).symm
  | passes => exact h

end Scan

/-! ## The slots of a pairing -/

section Slots

variable {capacity : Nat} {source : Array UInt8} {p : Pairing} {i j : Nat}

theorem slots_insert (p : Pairing) (slot : Slot) : (p.insert slot).slots = p.slots.push slot := by
  obtain ⟨opener, closer⟩ := slot
  cases opener <;> cases closer <;> rfl

theorem slots_ofSlots (size : Nat) (slots : Array Slot) : (ofSlots size slots).slots = slots := by
  have hfold (slots : List Slot) (p : Pairing) :
      (slots.foldl insert p).slots.toList = p.slots.toList ++ slots := by
    induction slots generalizing p with
    | nil => exact (List.append_nil _).symm
    | cons slot slots ih =>
      rw [List.foldl_cons, ih, slots_insert, Array.toList_push, List.append_assoc]
      rfl
  rw [← Array.toList_inj, ofSlots, ← Array.foldl_toList, hfold]
  rfl

theorem mem_slots_iff (h : ofSource capacity source = .ok p) :
    ⟨some i, some j⟩ ∈ p.slots ↔ Partners source i j := by
  obtain ⟨s, hread, rfl⟩ := exists_scan h
  rw [slots_ofSlots]
  exact Scan.mem_finish_iff hread i j

/-- The slots are those of a scan that has read the whole source. -/
theorem exists_finished_scan (h : ofSource capacity source = .ok p) :
    ∃ s : Scan, p.slots = s.finish ∧ s.Tracks source source.size ∧ s.Closes source := by
  obtain ⟨s, hread, rfl⟩ := exists_scan h
  have hboth := Scan.finished_invariant
    (motive := fun n s => s.Tracks source n ∧ s.Closes source)
    (fun hbyte h => ⟨h.1.read hbyte, h.2.read h.1 hbyte⟩)
    ⟨Scan.tracks_start source, Scan.closes_start source⟩ hread
  exact ⟨s, slots_ofSlots _ _, hboth⟩

/-- An opening bracket in a slot of its own waits up to the end of the source. -/
theorem not_partners_of_opener_mem (h : ofSource capacity source = .ok p)
    (hmem : ⟨some i, none⟩ ∈ p.slots) (j : Nat) : ¬ Partners source i j := by
  obtain ⟨s, hslots, htracks, hcloses⟩ := exists_finished_scan h
  rw [hslots, Scan.finish, Array.mem_append] at hmem
  rcases hmem with hslot | hwaiting
  · exact absurd rfl (hcloses.closer_ne_none _ hslot)
  · have hwaits := (htracks.mem_waiting i).1 (by simpa using hwaiting)
    exact (waits_size_iff.1 hwaits).2 j

/-- A closing bracket in a slot of its own has met no waiting bracket. -/
theorem not_partners_of_closer_mem (h : ofSource capacity source = .ok p)
    (hmem : ⟨none, some j⟩ ∈ p.slots) (i : Nat) : ¬ Partners source i j := by
  obtain ⟨s, hslots, -, hcloses⟩ := exists_finished_scan h
  rw [hslots, Scan.finish, Array.mem_append] at hmem
  rcases hmem with hslot | hwaiting
  · exact hcloses.not_partners j hslot i
  · simp at hwaiting

/-- A slot with an opening bracket holds what is looked up from there. -/
theorem eq_of_opener_eq (h : ofSource capacity source = .ok p) {slot : Slot} (hmem : slot ∈ p.slots)
    (hi : slot.opener = some i) : slot = ⟨some i, p.closerOf? i⟩ := by
  obtain ⟨opener, closer⟩ := slot
  obtain rfl : opener = some i := hi
  cases closer with
  | some j => rw [(closerOf?_iff_partners h i j).2 ((mem_slots_iff h).1 hmem)]
  | none =>
    have halone := not_partners_of_opener_mem h hmem
    rw [Option.eq_none_iff_forall_ne_some.2 fun j hj => halone j ((closerOf?_iff_partners h i j).1 hj)]

/-- A slot with a closing bracket holds what is looked up from there. -/
theorem eq_of_closer_eq (h : ofSource capacity source = .ok p) {slot : Slot} (hmem : slot ∈ p.slots)
    (hj : slot.closer = some j) : slot = ⟨p.openerOf? j, some j⟩ := by
  obtain ⟨opener, closer⟩ := slot
  obtain rfl : closer = some j := hj
  cases opener with
  | some i => rw [(openerOf?_iff_partners h i j).2 ((mem_slots_iff h).1 hmem)]
  | none =>
    have halone := not_partners_of_closer_mem h hmem
    rw [Option.eq_none_iff_forall_ne_some.2 fun i hi => halone i ((openerOf?_iff_partners h i j).1 hi)]

end Slots

/-! ## The same partners -/

namespace Directory

/-- Going across finds what all slots of a position hold on the other side. -/
theorem across?_ofList {slots : List Slot} {here there : Slot → Option Nat} {i : Nat}
    {found : Option Nat} (hsome : ∀ slot ∈ slots, here slot = some i → there slot = found)
    (hnone : (∀ slot ∈ slots, here slot ≠ some i) → found = none) :
    across? (.ofList (slots.map here)) (.ofList (slots.map there)) i = some found := by
  unfold across?
  split
  · rename_i k hk
    have hslot := Side.getElem?_of_slotOf? hk
    rw [List.getElem?_map, Option.map_eq_some_iff] at hslot
    obtain ⟨slot, hget, hhere⟩ := hslot
    rw [Side.positions_ofList, List.getElem?_toArray, List.getElem?_map, hget, Option.map_some,
      hsome slot (List.mem_of_getElem? hget) hhere]
  · rename_i hmissing
    rw [hnone fun slot hmem hhere => ?_]
    obtain ⟨k, hk⟩ := Side.exists_slotOf? (List.mem_map.2 ⟨slot, hmem, hhere⟩)
    rw [hmissing] at hk
    cases hk

variable {capacity : Nat} {source : Array UInt8} {p : Pairing}

/-- By way of the slots the same closing bracket is found as in the table by position. -/
theorem closerOf?_eq (h : ofSource capacity source = .ok p) (i : Nat) :
    (ofPairing p).closerOf? i = some (p.closerOf? i) := by
  rw [ofPairing_eq]
  refine across?_ofList (fun slot hmem hi => ?_) fun hmissing => ?_
  · exact congrArg Slot.closer (eq_of_opener_eq h (Array.mem_toList_iff.1 hmem) hi)
  · refine Option.eq_none_iff_forall_ne_some.2 fun j hj => ?_
    have hp := (closerOf?_iff_partners h i j).1 hj
    exact hmissing _ (Array.mem_toList_iff.2 ((mem_slots_iff h).2 hp)) rfl

/-- By way of the slots the same opening bracket is found as in the table by position. -/
theorem openerOf?_eq (h : ofSource capacity source = .ok p) (j : Nat) :
    (ofPairing p).openerOf? j = some (p.openerOf? j) := by
  rw [ofPairing_eq]
  refine across?_ofList (fun slot hmem hj => ?_) fun hmissing => ?_
  · exact congrArg Slot.opener (eq_of_closer_eq h (Array.mem_toList_iff.1 hmem) hj)
  · refine Option.eq_none_iff_forall_ne_some.2 fun i hi => ?_
    have hp := (openerOf?_iff_partners h i j).1 hi
    exact hmissing _ (Array.mem_toList_iff.2 ((mem_slots_iff h).2 hp)) rfl

end Directory

end TapeDebugger.Pairing
