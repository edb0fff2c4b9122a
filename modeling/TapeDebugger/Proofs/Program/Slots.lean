-- SUMMARY: The slots of a pairing list every bracket once: by closing brackets from left to right, then those that wait in vain, innermost first.
import TapeDebugger.Proofs.Program.Directory

/-!
# Slots

A slot is recorded when its closing bracket is read, so the slots recorded list the closing brackets of the
source in order (`Scan.Lists`). What stands in a slot beside the closing bracket is settled by the source
(`eq_of_closer_eq`), and so only the positions are left to follow through the scan. The brackets that wait
at the end come after them from the top of the stack downwards, and a bracket stands above another only if
it comes later in the source (`Scan.Tracks.pairwise_waiting`).
-/

namespace TapeDebugger

namespace Bracket

/-- The closing brackets among the first `n` bytes, from left to right. -/
def closings (source : Array UInt8) (n : Nat) : List Nat :=
  (List.range n).filter fun j => source[j]? = some closing

variable {source : Array UInt8} {n j : Nat}

theorem mem_closings_iff : j ∈ closings source n ↔ j < n ∧ source[j]? = some closing := by
  rw [closings, List.mem_filter, List.mem_range, decide_eq_true_iff]

theorem pairwise_closings (source : Array UInt8) (n : Nat) : (closings source n).Pairwise (· < ·) :=
  List.pairwise_lt_range.filter _

theorem closings_succ (source : Array UInt8) (n : Nat) : closings source (n + 1) =
    closings source n ++ if source[n]? = some closing then [n] else [] := by
  rw [closings, List.range_succ, List.filter_append, ← closings, List.filter_singleton]
  simp

end Bracket

namespace Pairing

open TapeDebugger.Bracket

namespace Scan

variable {source : Array UInt8} {n : Nat} {s : Scan}

/-- A bracket stands above another only if it comes later: the depth from the lower one is greater. -/
theorem Tracks.pairwise_waiting (h : Tracks source n s) : s.waiting.Pairwise (· > ·) := by
  rw [List.pairwise_iff_getElem]
  intro upper lower hupper hlower hlt
  have hdepthUpper := h.depth_waiting upper _ (List.getElem?_eq_getElem hupper)
  have hdepthLower := h.depth_waiting lower _ (List.getElem?_eq_getElem hlower)
  have hwaits : Waits source n s.waiting[upper] := (h.mem_waiting _).1 (List.getElem_mem hupper)
  have hwaits' : Waits source n s.waiting[lower] := (h.mem_waiting _).1 (List.getElem_mem hlower)
  by_contra hle
  obtain heq | hbefore := Nat.eq_or_lt_of_le (Nat.le_of_not_lt hle)
  · rw [heq] at hdepthUpper
    omega
  · have hpos := hwaits.2.2 _ hbefore (Nat.le_of_lt hwaits'.2.1)
    have hsplit : depthBetween source s.waiting[upper] n =
        depthBetween source s.waiting[upper] s.waiting[lower] +
          depthBetween source s.waiting[lower] n :=
      depthBetween_add (Nat.le_of_lt hbefore) (Nat.le_of_lt hwaits'.2.1)
    omega

/-- The slots recorded list the closing brackets read. -/
def Lists (source : Array UInt8) (n : Nat) (s : Scan) : Prop :=
  s.slots.toList.map Slot.closer = (closings source n).map some

theorem Lists.read {byte : UInt8} (h : Lists source n s) (hbyte : source[n]? = some byte) :
    Lists source (n + 1) (s.read n byte) := by
  rw [Lists, closings_succ, hbyte, List.map_append, ← h]
  have hreads := s.reads_read n byte
  generalize s.read n byte = next at hreads ⊢
  cases hreads with
  | opens => exact (List.append_nil _).symm
  | closes => rw [Array.toList_push, List.map_append, if_pos rfl]; rfl
  | strays => rw [Array.toList_push, List.map_append, if_pos rfl]; rfl
  | passes ho hc =>
    rw [if_neg (by simp [hc])]
    exact (List.append_nil _).symm

end Scan

section Slots

variable {capacity : Nat} {source : Array UInt8} {p : Pairing} {i : Nat}

/-- All slots of a source in their order: by closing brackets from left to right, and then those of the
brackets that wait in vain, innermost first. -/
theorem exists_listing (h : ofSource capacity source = .ok p) :
    ∃ openers : List Nat,
      p.slots.toList =
        (closings source source.size).map (fun j => ⟨p.openerOf? j, some j⟩) ++
          openers.map (fun i => ⟨some i, none⟩) ∧
      openers.Pairwise (· > ·) ∧
      ∀ i, i ∈ openers ↔ source[i]? = some opening ∧ ∀ j, ¬ Partners source i j := by
  obtain ⟨s, hread, hp⟩ := exists_scan h
  obtain ⟨htracks, hlists⟩ := Scan.finished_invariant
    (motive := fun n s => s.Tracks source n ∧ s.Lists source n)
    (fun hbyte h => ⟨h.1.read hbyte, h.2.read hbyte⟩)
    ⟨Scan.tracks_start source, rfl⟩ hread
  have hslots : p.slots = s.finish := by rw [hp, slots_ofSlots]
  refine ⟨s.waiting, ?_, htracks.pairwise_waiting, fun i => ?_⟩
  · rw [hslots, Scan.finish, Array.toList_append]
    congr 1
    calc s.slots.toList
      _ = s.slots.toList.map fun slot => ⟨slot.closer.bind p.openerOf?, slot.closer⟩ := by
        refine (List.map_id _).symm.trans (List.map_congr_left fun slot hslot => ?_)
        have hcloser : slot.closer ∈ (closings source source.size).map some := by
          rw [← hlists]
          exact List.mem_map_of_mem hslot
        obtain ⟨j, -, hj⟩ := List.mem_map.1 hcloser
        have hmem : slot ∈ p.slots := by
          rw [hslots, Scan.finish]
          exact Array.mem_append_left _ (Array.mem_toList_iff.1 hslot)
        rw [← hj]
        exact eq_of_closer_eq h hmem hj.symm
      _ = (s.slots.toList.map Slot.closer).map fun closer => ⟨closer.bind p.openerOf?, closer⟩ := by
        rw [List.map_map]
        rfl
      _ = (closings source source.size).map fun j => ⟨p.openerOf? j, some j⟩ := by
        rw [hlists, List.map_map]
        rfl
  · rw [htracks.mem_waiting, waits_size_iff]

/-- No slot is listed twice. -/
theorem nodup_slots (h : ofSource capacity source = .ok p) : p.slots.toList.Nodup := by
  obtain ⟨openers, hslots, hdecreasing, -⟩ := exists_listing h
  have hclosers : (closings source source.size).Nodup :=
    (pairwise_closings _ _).imp Nat.ne_of_lt
  have hopeners : openers.Nodup := hdecreasing.imp Nat.ne_of_gt
  rw [hslots, List.nodup_append]
  refine ⟨hclosers.map fun j j' heq => ?_, hopeners.map fun i i' heq => ?_, ?_⟩
  · exact Option.some.inj (congrArg Slot.closer heq)
  · exact Option.some.inj (congrArg Slot.opener heq)
  · intro slot hslot slot' hslot'
    obtain ⟨j, -, rfl⟩ := List.mem_map.1 hslot
    obtain ⟨i, -, rfl⟩ := List.mem_map.1 hslot'
    exact fun heq => Option.some_ne_none j (congrArg Slot.closer heq)

theorem mem_slots_of_opening (h : ofSource capacity source = .ok p)
    (hopen : source[i]? = some opening) : ⟨some i, p.closerOf? i⟩ ∈ p.slots := by
  cases hcloser : p.closerOf? i with
  | some j => exact (mem_slots_iff h).2 ((closerOf?_iff_partners h i j).1 hcloser)
  | none =>
    obtain ⟨openers, hslots, -, hmem⟩ := exists_listing h
    rw [← Array.mem_toList_iff, hslots, List.mem_append]
    refine .inr (List.mem_map.2 ⟨i, (hmem i).2 ⟨hopen, fun j hp => ?_⟩, rfl⟩)
    rw [(closerOf?_iff_partners h i j).2 hp] at hcloser
    cases hcloser

/-- An opening bracket stands in exactly one slot. -/
theorem existsUnique_slot_of_opening (h : ofSource capacity source = .ok p)
    (hopen : source[i]? = some opening) :
    ∃! k : Nat, ∃ closer, p.slots[k]? = some ⟨some i, closer⟩ := by
  obtain ⟨k, hk⟩ := Array.mem_iff_getElem?.1 (mem_slots_of_opening h hopen)
  refine ⟨k, ⟨_, hk⟩, ?_⟩
  rintro k' ⟨closer, hk'⟩
  have hlt : k' < p.slots.toList.length := (Array.getElem?_eq_some_iff.1 hk').1
  -- whatever stands beside the bracket is what is looked up, so both slots are one and the same
  rw [eq_of_opener_eq h (Array.mem_of_getElem? hk') rfl, ← hk, ← Array.getElem?_toList,
    ← Array.getElem?_toList] at hk'
  exact (List.getElem?_inj hlt (nodup_slots h)).1 hk'

theorem empty_slot_notMem (h : ofSource capacity source = .ok p) : ⟨none, none⟩ ∉ p.slots := by
  obtain ⟨openers, hslots, -⟩ := exists_listing h
  rw [← Array.mem_toList_iff, hslots, List.mem_append]
  rintro (hmem | hmem)
  · obtain ⟨j, -, heq⟩ := List.mem_map.1 hmem
    exact Option.some_ne_none j (congrArg Slot.closer heq)
  · obtain ⟨i, -, heq⟩ := List.mem_map.1 hmem
    exact Option.some_ne_none i (congrArg Slot.opener heq)

/-- The two arrays of a directory side by side. -/
def Directory.pairs (d : Directory) : List (Option Nat × Option Nat) :=
  d.openers.positions.toList.zip d.closers.positions.toList

/-- The two arrays stay aligned, slot by slot. -/
theorem Directory.pairs_ofPairing (p : Pairing) :
    (ofPairing p).pairs = p.slots.toList.map fun slot => (slot.opener, slot.closer) := by
  rw [ofPairing_eq, pairs]
  simp only [Side.positions_ofList, List.zip_map', List.toList_toArray]

/-- The slots of a pairing, and with them the arrays of its directory, list the brackets of the source in a
fixed order. First comes every closing bracket, from left to right, beside its partner if it has one. Then
comes every opening bracket without a partner, from right to left. So nothing is lost and nothing is listed
twice: every opening bracket stands in exactly one slot, and no slot is empty. The slots with two brackets
are the pairs of partners, which is what is looked up from either side, and the opening bracket comes first
in the source. -/
theorem slots_list_brackets (h : ofSource capacity source = .ok p) :
    (∃ closers openers : List Nat,
      p.slots.toList =
        closers.map (fun j => ⟨p.openerOf? j, some j⟩) ++ openers.map (fun i => ⟨some i, none⟩) ∧
      closers.Pairwise (· < ·) ∧ (∀ j, j ∈ closers ↔ source[j]? = some closing) ∧
      openers.Pairwise (· > ·) ∧
      (∀ i, i ∈ openers ↔ source[i]? = some opening ∧ ∀ j, ¬ Partners source i j)) ∧
    (Directory.ofPairing p).pairs = p.slots.toList.map (fun slot => (slot.opener, slot.closer)) ∧
    (∀ i, source[i]? = some opening → ∃! k : Nat, ∃ closer, p.slots[k]? = some ⟨some i, closer⟩) ∧
    ⟨none, none⟩ ∉ p.slots ∧
    (∀ i j, ⟨some i, some j⟩ ∈ p.slots → i < j) ∧
    (∀ i j, (p.closerOf? i = some j ↔ ⟨some i, some j⟩ ∈ p.slots) ∧
      (⟨some i, some j⟩ ∈ p.slots ↔ p.openerOf? j = some i) ∧
      (p.openerOf? j = some i ↔ Partners source i j)) := by
  obtain ⟨openers, hslots, hdecreasing, hopeners⟩ := exists_listing h
  refine ⟨⟨_, openers, hslots, pairwise_closings _ _, fun j => ?_, hdecreasing, hopeners⟩,
    Directory.pairs_ofPairing p, fun i hopen => existsUnique_slot_of_opening h hopen,
    empty_slot_notMem h, fun i j hmem => ((mem_slots_iff h).1 hmem).lt, fun i j => ?_⟩
  · rw [mem_closings_iff]
    exact and_iff_right_of_imp fun hclose => (Array.getElem?_eq_some_iff.1 hclose).1
  · rw [closerOf?_iff_partners h, mem_slots_iff h, openerOf?_iff_partners h]
    exact ⟨Iff.rfl, Iff.rfl, Iff.rfl⟩

/-- In `][[][` the first bracket is alone, the third has a partner, and the other two wait in vain. -/
theorem slots_list_brackets_of_lone_ones :
    ∃ p, ofSource 4 #[0x5d, 0x5b, 0x5b, 0x5d, 0x5b] = .ok p ∧
      p.slots = #[⟨none, some 0⟩, ⟨some 2, some 3⟩, ⟨some 4, none⟩, ⟨some 1, none⟩] ∧
      (Directory.ofPairing p).pairs =
        [(none, some 0), (some 2, some 3), (some 4, none), (some 1, none)] ∧
      (∃! k : Nat, ∃ closer, p.slots[k]? = some ⟨some 4, closer⟩) ∧
      p.closerOf? 2 = some 3 := by
  have h : ofSource 4 #[0x5d, 0x5b, 0x5b, 0x5d, 0x5b] = .ok
      { slots := #[⟨none, some 0⟩, ⟨some 2, some 3⟩, ⟨some 4, none⟩, ⟨some 1, none⟩]
        closers := #[none, none, some 3, none, none]
        openers := #[none, none, none, some 2, none] } := by decide
  obtain ⟨-, hpairs, hunique, -, -, hlookup⟩ := slots_list_brackets h
  exact ⟨_, h, rfl, hpairs, hunique 4 rfl, (hlookup 2 3).1.2 (by simp)⟩

end Slots

end Pairing

end TapeDebugger
