-- SUMMARY: The pairing of a source finds exactly the partners: what the scan keeps, what the table holds.
import TapeDebugger.Proofs.Program.Depth
import Mathlib.Data.List.Induction

/-!
# Lookups in a pairing

The scan's stack holds the brackets that wait, and the depth from a waiting bracket is its place in
the stack counted from the top (`Scan.Tracks`). So a closing bracket meets its partner on top of the
stack, and the pairs recorded are the partners (`mem_finish_iff`). The two tables are written slot by
slot, and no position is written twice with different partners.
-/

namespace TapeDebugger.Pairing

open TapeDebugger.Bracket

/-! ## The scan -/

/-- What reading the byte at `n` makes of a scan. -/
inductive Scan.Reads (s : Scan) (n : Nat) : UInt8 → Scan → Prop where
  | opens : Reads s n opening { s with waiting := n :: s.waiting, needed := s.needed + 1 }
  | closes {top : Nat} {outer : List Nat} (hwaiting : s.waiting = top :: outer) :
      Reads s n closing { s with slots := s.slots.push ⟨some top, some n⟩, waiting := outer }
  | strays (hwaiting : s.waiting = []) :
      Reads s n closing
        { s with slots := s.slots.push ⟨none, some n⟩, needed := s.needed + 1 }
  | passes {byte : UInt8} (ho : byte ≠ opening) (hc : byte ≠ closing) : Reads s n byte s

theorem Scan.reads_read (s : Scan) (n : Nat) (byte : UInt8) : s.Reads n byte (s.read n byte) := by
  unfold read
  split
  · subst byte
    exact .opens
  · split
    · subst byte
      split
      · exact .strays ‹_›
      · exact .closes ‹_›
    · exact .passes ‹_› ‹_›

/-- What a scan knows after the first `n` bytes of a source. -/
structure Scan.Tracks (source : Array UInt8) (n : Nat) (s : Scan) : Prop where
  /-- The stack holds the brackets that wait. -/
  mem_waiting : ∀ i, i ∈ s.waiting ↔ Waits source n i
  /-- The depth from the top of the stack is one, and grows by one with each bracket further out. -/
  depth_waiting : ∀ (level i : Nat), s.waiting[level]? = some i → depthBetween source i n = level + 1
  /-- The pairs recorded are the partners met so far. -/
  mem_slots : ∀ i j : Nat, ⟨some i, some j⟩ ∈ s.slots ↔ j < n ∧ Partners source i j

namespace Scan

variable {source : Array UInt8} {n : Nat} {s : Scan}

theorem tracks_start (source : Array UInt8) : Tracks source 0 {} where
  mem_waiting i := by simp [Waits]
  depth_waiting level i h := by simp at h
  mem_slots i j := by simp

/-- The partner of a closing bracket is the bracket on top of the stack. -/
theorem Tracks.partners_iff (h : Tracks source n s) (hclose : source[n]? = some closing) (i : Nat) :
    Partners source i n ↔ s.waiting[0]? = some i := by
  constructor
  · rintro ⟨hwaits, hzero⟩
    obtain ⟨level, hlevel⟩ := List.mem_iff_getElem?.1 ((h.mem_waiting i).2 hwaits)
    have hdepth := h.depth_waiting level i hlevel
    have hstep := depthBetween_succ (Nat.le_of_lt hwaits.2.1) hclose
    rw [weight_closing] at hstep
    obtain rfl : level = 0 := by omega
    exact hlevel
  · intro htop
    have hwaits := (h.mem_waiting i).1 (List.mem_of_getElem? htop)
    have hdepth := h.depth_waiting 0 i htop
    have hstep := depthBetween_succ (Nat.le_of_lt hwaits.2.1) hclose
    rw [weight_closing] at hstep
    exact ⟨hwaits, by omega⟩

/-- After one more byte the partners met are the former ones and those that end on this byte. -/
theorem partners_before_succ_iff {i j : Nat} :
    j < n + 1 ∧ Partners source i j ↔
      (j < n ∧ Partners source i j) ∨ (j = n ∧ Partners source i n) := by
  grind

theorem not_partners_of_ne_closing {byte : UInt8} (hbyte : source[n]? = some byte)
    (hc : byte ≠ closing) (i : Nat) : ¬ Partners source i n := fun hp => by
  have := hp.getElem?_closer
  grind

theorem Tracks.read_opening (h : Tracks source n s) (hbyte : source[n]? = some opening) :
    Tracks source (n + 1) (s.read n opening) := by
  have hread : s.read n opening =
      { s with waiting := n :: s.waiting, needed := s.needed + 1 } := by simp [read]
  have hdepth : ∀ i, i ≤ n → depthBetween source i (n + 1) = depthBetween source i n + 1 :=
    fun i hi => depthBetween_succ hi hbyte
  rw [hread]
  refine ⟨fun i => ?_, fun level i hlevel => ?_, fun i j => ?_⟩
  · rw [List.mem_cons, h.mem_waiting, waits_succ_iff]
    constructor
    · rintro (rfl | hw)
      · exact .inr ⟨rfl, hbyte⟩
      · have := hw.depth_pos
        have := hdepth i (Nat.le_of_lt hw.2.1)
        exact .inl ⟨hw, by omega⟩
    · rintro (⟨hw, -⟩ | ⟨rfl, -⟩)
      · exact .inr hw
      · exact .inl rfl
  · cases level with
    | zero =>
      obtain rfl : n = i := by simpa using hlevel
      rw [depthBetween_one hbyte, weight_opening]
      rfl
    | succ level =>
      have hlevel' : s.waiting[level]? = some i := by simpa using hlevel
      have hw := (h.mem_waiting i).1 (List.mem_of_getElem? hlevel')
      rw [hdepth i (Nat.le_of_lt hw.2.1), h.depth_waiting level i hlevel']
      omega
  · rw [h.mem_slots, partners_before_succ_iff]
    have := not_partners_of_ne_closing hbyte (by decide) i
    grind

theorem Tracks.read_closing (h : Tracks source n s) (hbyte : source[n]? = some closing) :
    Tracks source (n + 1) (s.read n closing) := by
  have hdepth : ∀ i, i ≤ n → depthBetween source i (n + 1) = depthBetween source i n - 1 :=
    fun i hi => depthBetween_succ hi hbyte
  have hne : ¬ source[n]? = some opening := by rw [hbyte]; decide
  have htop := h.partners_iff hbyte
  have hwaits : ∀ i, Waits source (n + 1) i ↔ i ∈ s.waiting ∧ s.waiting[0]? ≠ some i := by
    intro i
    rw [waits_succ_iff, ← h.mem_waiting, ne_eq, ← htop]
    constructor
    · rintro (⟨hmem, hpos⟩ | ⟨-, hopen⟩)
      · exact ⟨hmem, fun hp => by have := hp.2; omega⟩
      · exact absurd hopen hne
    · rintro ⟨hmem, hnot⟩
      have hw := (h.mem_waiting i).1 hmem
      have hpos := hw.depth_pos
      have hstep := hdepth i (Nat.le_of_lt hw.2.1)
      have : depthBetween source i (n + 1) ≠ 0 := fun hzero => hnot ⟨hw, hzero⟩
      exact .inl ⟨hmem, by omega⟩
  cases hwaiting : s.waiting with
  | nil =>
    have hread : s.read n closing =
        { s with slots := s.slots.push ⟨none, some n⟩, needed := s.needed + 1 } := by
      simp [read, opening, closing, hwaiting]
    rw [hread]
    refine ⟨fun i => ?_, fun level i hlevel => ?_, fun i j => ?_⟩
    · rw [hwaits, hwaiting]
      simp
    · simp [hwaiting] at hlevel
    · have := htop i
      rw [Array.mem_push, h.mem_slots, partners_before_succ_iff]
      grind
  | cons top outer =>
    have hread : s.read n closing =
        { s with slots := s.slots.push ⟨some top, some n⟩, waiting := outer } := by
      simp [read, opening, closing, hwaiting]
    have hdepth_outer : ∀ (level i : Nat), outer[level]? = some i →
        i ≤ n ∧ depthBetween source i n = level + 2 := by
      intro level i hlevel
      have hlevel' : s.waiting[level + 1]? = some i := by rw [hwaiting]; simpa using hlevel
      have hw := (h.mem_waiting i).1 (List.mem_of_getElem? hlevel')
      have := h.depth_waiting (level + 1) i hlevel'
      exact ⟨Nat.le_of_lt hw.2.1, by omega⟩
    have hdepth_top : depthBetween source top n = 1 := by
      simpa using h.depth_waiting 0 top (by rw [hwaiting]; rfl)
    rw [hread]
    refine ⟨fun i => ?_, fun level i hlevel => ?_, fun i j => ?_⟩
    · rw [hwaits, hwaiting]
      have hne_top : i ∈ outer → i ≠ top := by
        rintro hmem rfl
        obtain ⟨level, hlevel⟩ := List.mem_iff_getElem?.1 hmem
        have := (hdepth_outer level i hlevel).2
        omega
      grind
    · obtain ⟨hi, hlevel'⟩ := hdepth_outer level i hlevel
      rw [hdepth i hi, hlevel']
      omega
    · have := htop i
      rw [hwaiting] at this
      rw [Array.mem_push, h.mem_slots, partners_before_succ_iff]
      grind

theorem Tracks.read_plain {byte : UInt8} (h : Tracks source n s) (hbyte : source[n]? = some byte)
    (ho : byte ≠ opening) (hc : byte ≠ closing) : Tracks source (n + 1) (s.read n byte) := by
  have hread : s.read n byte = s := by simp only [read, if_neg ho, if_neg hc]
  have hdepth : ∀ i, i ≤ n → depthBetween source i (n + 1) = depthBetween source i n := by
    intro i hi
    rw [depthBetween_succ hi hbyte, weight_of_plain ho hc, Int.add_zero]
  rw [hread]
  refine ⟨fun i => ?_, fun level i hlevel => ?_, fun i j => ?_⟩
  · rw [h.mem_waiting, waits_succ_iff]
    constructor
    · intro hw
      have := hw.depth_pos
      have := hdepth i (Nat.le_of_lt hw.2.1)
      exact .inl ⟨hw, by omega⟩
    · rintro (⟨hw, -⟩ | ⟨-, hopen⟩)
      · exact hw
      · rw [hbyte] at hopen
        exact absurd (Option.some.inj hopen) ho
  · have hw := (h.mem_waiting i).1 (List.mem_of_getElem? hlevel)
    rw [hdepth i (Nat.le_of_lt hw.2.1), h.depth_waiting level i hlevel]
  · rw [h.mem_slots, partners_before_succ_iff]
    have := not_partners_of_ne_closing hbyte hc i
    grind

/-- Reading one byte keeps the scan on track. -/
theorem Tracks.read {byte : UInt8} (h : Tracks source n s) (hbyte : source[n]? = some byte) :
    Tracks source (n + 1) (s.read n byte) := by
  by_cases ho : byte = opening
  · subst ho; exact h.read_opening hbyte
  · by_cases hc : byte = closing
    · subst hc; exact h.read_closing hbyte
    · exact h.read_plain hbyte ho hc

/-- The bytes left to read begin with the one at the position to be read next. -/
theorem next_of_drop_eq_cons {byte : UInt8} {bytes : List UInt8}
    (h : source.toList.drop n = byte :: bytes) :
    source[n]? = some byte ∧ source.toList.drop (n + 1) = bytes := by
  constructor
  · rw [← Array.getElem?_toList, ← Nat.add_zero n, ← List.getElem?_drop, h]
    rfl
  · rw [← List.drop_drop, h]
    rfl

/-- What one byte keeps, a scan that is not refused keeps up to the end of the source. -/
theorem readAll_invariant {motive : Nat → Scan → Prop}
    (hread : ∀ {n s byte}, source[n]? = some byte → motive n s → motive (n + 1) (s.read n byte))
    {capacity : Nat} {bytes : List UInt8} {s' : Scan} (h : motive n s)
    (hbytes : source.toList.drop n = bytes) (hall : Scan.readAll capacity bytes n s = .ok s') :
    motive (n + bytes.length) s' := by
  induction bytes generalizing n s with
  | nil =>
    obtain rfl : s = s' := by simpa [Scan.readAll] using hall
    exact h
  | cons byte bytes ih =>
    obtain ⟨hbyte, hrest⟩ := next_of_drop_eq_cons hbytes
    simp only [Scan.readAll] at hall
    split at hall
    · contradiction
    · have := ih (hread hbyte h) hrest hall
      rwa [List.length_cons, Nat.add_comm bytes.length, ← Nat.add_assoc]

/-- What holds at the start and is kept by one byte, holds when the whole source has been read. -/
theorem finished_invariant {motive : Nat → Scan → Prop}
    (hread : ∀ {n s byte}, source[n]? = some byte → motive n s → motive (n + 1) (s.read n byte))
    {capacity : Nat} (hstart : motive 0 {})
    (hall : Scan.readAll capacity source.toList 0 {} = .ok s) : motive source.size s := by
  have hend := readAll_invariant hread hstart List.drop_zero hall
  rw [Nat.zero_add, Array.length_toList] at hend
  exact hend

/-- The pairs among all slots of a source are its partners. -/
theorem mem_finish_iff {capacity : Nat} (hread : Scan.readAll capacity source.toList 0 {} = .ok s)
    (i j : Nat) : ⟨some i, some j⟩ ∈ s.finish ↔ Partners source i j := by
  have htracks : Tracks source source.size s :=
    finished_invariant (fun hbyte h => h.read hbyte) (tracks_start source) hread
  have hslots := htracks.mem_slots i j
  have hstray : ∀ waiting : List Nat, (⟨some i, some j⟩ : Slot) ∉
      (waiting.map fun opener => (⟨some opener, none⟩ : Slot)).toArray := by simp
  rw [finish, Array.mem_append, hslots]
  constructor
  · rintro (⟨-, hp⟩ | hmem)
    · exact hp
    · exact absurd hmem (hstray _)
  · intro hp
    exact .inl ⟨hp.lt_size, hp⟩

end Scan

/-! ## The tables -/

/-- A table after writing partners at some positions, one after the other. -/
def writeAll (writes : List (Nat × Nat)) (table : Array (Option Nat)) : Array (Option Nat) :=
  writes.foldl (fun table write => table.setIfInBounds write.1 (some write.2)) table

theorem size_writeAll (writes : List (Nat × Nat)) (table : Array (Option Nat)) :
    (writeAll writes table).size = table.size := by
  induction writes generalizing table with
  | nil => rfl
  | cons write writes ih =>
    simp only [writeAll, List.foldl_cons] at ih ⊢
    rw [ih, Array.size_setIfInBounds]

/-- When all writes at a position agree, the table holds what was written there. -/
theorem getD_writeAll_iff {writes : List (Nat × Nat)} {size : Nat}
    (hagree : ∀ i j j', (i, j) ∈ writes → (i, j') ∈ writes → j = j')
    (hbound : ∀ i j, (i, j) ∈ writes → i < size) (i j : Nat) :
    (writeAll writes (Array.replicate size none)).getD i none = some j ↔ (i, j) ∈ writes := by
  induction writes using List.reverseRecOn with
  | nil => simp [writeAll, Array.getD]
  | append_singleton writes write ih =>
    obtain ⟨i', j'⟩ := write
    have ih := ih (fun i j j' h h' => hagree i j j' (List.mem_append_left _ h)
        (List.mem_append_left _ h'))
      (fun i j h => hbound i j (List.mem_append_left _ h))
    have hlast : (i', j') ∈ writes ++ [(i', j')] := by simp
    have hwrite : writeAll (writes ++ [(i', j')]) (Array.replicate size none) =
        (writeAll writes (Array.replicate size none)).setIfInBounds i' (some j') := by
      simp [writeAll]
    have hsize : i' < (writeAll writes (Array.replicate size none)).size := by
      rw [size_writeAll, Array.size_replicate]
      exact hbound i' j' hlast
    rw [hwrite, Array.getD_eq_getD_getElem?, Array.getElem?_setIfInBounds]
    by_cases hi : i' = i
    · subst hi
      simp only [if_true, hsize, Option.getD_some, Option.some.injEq]
      constructor
      · rintro rfl
        exact hlast
      · intro hmem
        exact hagree i' j' j hlast hmem
    · rw [if_neg hi, ← Array.getD_eq_getD_getElem?, ih]
      simp [Ne.symm hi]

/-- The positions of a pair; a bracket without a partner has none. -/
def Slot.pair? (slot : Slot) : Option (Nat × Nat) :=
  match slot with
  | ⟨some opener, some closer⟩ => some (opener, closer)
  | _ => none

theorem mem_filterMap_pair?_iff {slots : List Slot} {i j : Nat} :
    (i, j) ∈ slots.filterMap Slot.pair? ↔ ⟨some i, some j⟩ ∈ slots := by
  rw [List.mem_filterMap]
  constructor
  · rintro ⟨⟨opener, closer⟩, hmem, hpair⟩
    cases opener <;> cases closer <;> simp_all [Slot.pair?]
  · intro hmem
    exact ⟨_, hmem, rfl⟩

theorem closers_foldl_insert (slots : List Slot) (p : Pairing) :
    (slots.foldl insert p).closers = writeAll (slots.filterMap Slot.pair?) p.closers := by
  induction slots generalizing p with
  | nil => rfl
  | cons slot slots ih =>
    rw [List.foldl_cons, ih]
    obtain ⟨opener, closer⟩ := slot
    cases opener <;> cases closer <;> rfl

theorem openers_foldl_insert (slots : List Slot) (p : Pairing) :
    (slots.foldl insert p).openers =
      writeAll ((slots.filterMap Slot.pair?).map Prod.swap) p.openers := by
  induction slots generalizing p with
  | nil => rfl
  | cons slot slots ih =>
    rw [List.foldl_cons, ih]
    obtain ⟨opener, closer⟩ := slot
    cases opener <;> cases closer <;> rfl

/-! ## Lookups -/

section Lookups

variable {capacity : Nat} {source : Array UInt8} {p : Pairing}

/-- A pairing comes from a scan of the whole source. -/
theorem exists_scan (h : ofSource capacity source = .ok p) :
    ∃ s, Scan.readAll capacity source.toList 0 {} = .ok s ∧ p = ofSlots source.size s.finish := by
  rw [ofSource] at h
  cases hread : Scan.readAll capacity source.toList 0 {} with
  | error fault => rw [hread] at h; cases h
  | ok s => rw [hread] at h; cases h; exact ⟨s, rfl, rfl⟩

/-- The closing bracket looked up is the partner. -/
theorem closerOf?_iff_partners (h : ofSource capacity source = .ok p) (i j : Nat) :
    p.closerOf? i = some j ↔ Partners source i j := by
  obtain ⟨s, hread, rfl⟩ := exists_scan h
  have hmem : ∀ i j, (i, j) ∈ s.finish.toList.filterMap Slot.pair? ↔ Partners source i j := by
    intro i j
    rw [mem_filterMap_pair?_iff, Array.mem_toList_iff, Scan.mem_finish_iff hread]
  rw [closerOf?, ofSlots, ← Array.foldl_toList, closers_foldl_insert, ← hmem]
  apply getD_writeAll_iff
  · intro i j j' hj hj'
    exact ((hmem i j).1 hj).closer_unique ((hmem i j').1 hj')
  · intro i j hj
    have := (hmem i j).1 hj
    exact Nat.lt_trans this.lt this.lt_size

/-- The opening bracket looked up is the partner. -/
theorem openerOf?_iff_partners (h : ofSource capacity source = .ok p) (i j : Nat) :
    p.openerOf? j = some i ↔ Partners source i j := by
  obtain ⟨s, hread, rfl⟩ := exists_scan h
  have hmem : ∀ j i, (j, i) ∈ (s.finish.toList.filterMap Slot.pair?).map Prod.swap ↔
      Partners source i j := by
    intro j i
    rw [← Scan.mem_finish_iff hread, ← Array.mem_toList_iff, ← mem_filterMap_pair?_iff]
    simp
  rw [openerOf?, ofSlots, ← Array.foldl_toList, openers_foldl_insert, ← hmem]
  apply getD_writeAll_iff
  · intro j i i' hi hi'
    exact ((hmem j i).1 hi).opener_unique ((hmem j i').1 hi')
  · intro j i hi
    exact ((hmem j i).1 hi).lt_size

theorem closerOf?_eq_none_of_ne_opening (h : ofSource capacity source = .ok p) {i : Nat}
    (hi : source[i]? ≠ some opening) : p.closerOf? i = none := by
  rw [Option.eq_none_iff_forall_ne_some]
  intro j hj
  exact hi ((closerOf?_iff_partners h i j).1 hj).getElem?_opener

theorem openerOf?_eq_none_of_ne_closing (h : ofSource capacity source = .ok p) {j : Nat}
    (hj : source[j]? ≠ some closing) : p.openerOf? j = none := by
  rw [Option.eq_none_iff_forall_ne_some]
  intro i hi
  exact hj ((openerOf?_iff_partners h i j).1 hi).getElem?_closer

/-- An opening bracket has no partner exactly when no stretch from it is balanced. -/
theorem closerOf?_eq_none_iff (h : ofSource capacity source = .ok p) {i : Nat}
    (hopen : source[i]? = some opening) :
    p.closerOf? i = none ↔ ∀ q, i < q → q < source.size → ¬ Balanced source i q := by
  rw [Option.eq_none_iff_forall_ne_some, ← forall_not_partners_opener_iff hopen]
  simp only [ne_eq, closerOf?_iff_partners h]

/-- A closing bracket has no partner exactly when no stretch up to it is balanced. -/
theorem openerOf?_eq_none_iff (h : ofSource capacity source = .ok p) {j : Nat}
    (hclose : source[j]? = some closing) :
    p.openerOf? j = none ↔ ∀ q, q < j → ¬ Balanced source q j := by
  rw [Option.eq_none_iff_forall_ne_some, ← forall_not_partners_closer_iff hclose]
  simp only [ne_eq, openerOf?_iff_partners h]

/-- Lookups are depth matching. From either bracket the partner is where as many brackets have been
closed as opened for the first time, and there is none where this never happens or where no such
bracket stands. So the two lookups are inverse to each other, and pairs lie side by side or one
inside the other. -/
theorem lookups_match_depth (h : ofSource capacity source = .ok p) :
    (∀ i, source[i]? = some opening →
      (∀ j, p.closerOf? i = some j ↔
        IsLeast {q | i < q ∧ q < source.size ∧ Balanced source i q} j) ∧
      (p.closerOf? i = none ↔ ∀ q, i < q → q < source.size → ¬ Balanced source i q)) ∧
    (∀ j, source[j]? = some closing →
      (∀ i, p.openerOf? j = some i ↔ IsGreatest {q | q < j ∧ Balanced source q j} i) ∧
      (p.openerOf? j = none ↔ ∀ q, q < j → ¬ Balanced source q j)) ∧
    (∀ i, source[i]? ≠ some opening → p.closerOf? i = none) ∧
    (∀ j, source[j]? ≠ some closing → p.openerOf? j = none) ∧
    (∀ i j, p.closerOf? i = some j ↔ p.openerOf? j = some i) ∧
    (∀ i j, p.closerOf? i = some j → source[i]? = some opening ∧ source[j]? = some closing) ∧
    (∀ i j i' j', p.closerOf? i = some j → p.closerOf? i' = some j' → i ≠ i' →
      j < i' ∨ j' < i ∨ (i < i' ∧ j' < j) ∨ (i' < i ∧ j < j')) := by
  refine ⟨fun i hopen => ⟨fun j => ?_, closerOf?_eq_none_iff h hopen⟩,
    fun j hclose => ⟨fun i => ?_, openerOf?_eq_none_iff h hclose⟩,
    fun i => closerOf?_eq_none_of_ne_opening h, fun j => openerOf?_eq_none_of_ne_closing h,
    fun i j => ?_, fun i j hj => ?_, fun i j i' j' hj hj' hne => ?_⟩
  · rw [closerOf?_iff_partners h, partners_iff_isLeast hopen]
  · rw [openerOf?_iff_partners h, partners_iff_isGreatest hclose]
  · rw [closerOf?_iff_partners h, openerOf?_iff_partners h]
  · have hp := (closerOf?_iff_partners h i j).1 hj
    exact ⟨hp.getElem?_opener, hp.getElem?_closer⟩
  · have hp := (closerOf?_iff_partners h i j).1 hj
    have hp' := (closerOf?_iff_partners h i' j').1 hj'
    rcases Nat.lt_or_gt_of_ne hne with hlt | hgt
    · rcases Nat.lt_trichotomy j i' with hbefore | heq | hinside
      · exact .inl hbefore
      · have := hp.getElem?_closer
        rw [heq, hp'.getElem?_opener] at this
        exact absurd (Option.some.inj this) (by decide)
      · exact .inr (.inr (.inl ⟨hlt, hp.nested hp' hlt hinside⟩))
    · rcases Nat.lt_trichotomy j' i with hbefore | heq | hinside
      · exact .inr (.inl hbefore)
      · have := hp'.getElem?_closer
        rw [heq, hp.getElem?_opener] at this
        exact absurd (Option.some.inj this) (by decide)
      · exact .inr (.inr (.inr ⟨hgt, hp'.nested hp hgt hinside⟩))

/-- In `][[]]` the first bracket stays alone, and the outer of the two pairs ends with the source. -/
theorem lookups_match_depth_of_stray_and_nested :
    ofSource 3 #[0x5d, 0x5b, 0x5b, 0x5d, 0x5d] = .ok
      { slots := #[⟨none, some 0⟩, ⟨some 2, some 3⟩, ⟨some 1, some 4⟩]
        closers := #[none, some 4, some 3, none, none]
        openers := #[none, none, none, some 2, some 1] } ∧
      IsLeast {q | 1 < q ∧ q < 5 ∧ Balanced #[0x5d, 0x5b, 0x5b, 0x5d, 0x5d] 1 q} 4 ∧
      IsGreatest {q | q < 3 ∧ Balanced #[0x5d, 0x5b, 0x5b, 0x5d, 0x5d] q 3} 2 := by
  have h : ofSource 3 #[0x5d, 0x5b, 0x5b, 0x5d, 0x5d] = .ok
      { slots := #[⟨none, some 0⟩, ⟨some 2, some 3⟩, ⟨some 1, some 4⟩]
        closers := #[none, some 4, some 3, none, none]
        openers := #[none, none, none, some 2, some 1] } := by decide
  refine ⟨h, ?_, ?_⟩
  · exact (((lookups_match_depth h).1 1 rfl).1 4).1 rfl
  · exact (((lookups_match_depth h).2.1 3 rfl).1 2).1 rfl

end Lookups

end TapeDebugger.Pairing
