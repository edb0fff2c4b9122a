-- SUMMARY: Searching a table in order: what a search promises, and a search by halves that keeps the promise.
import TapeDebugger.Proofs.Program.Lines

/-!
# Searches

A search of a table that is in order comes to an entry, or to the index at which the entry would have to be
inserted to keep the order (`Finding.Holds`). In a table that grows strictly either of them is a count: it
tells how many entries are not larger (`Finding.Holds.count_eq`).

`bisect` is such a search. It halves the part of the table that may hold the entry until one candidate is
left, and compares only that one for equality (`bisect_searches`).
-/

namespace TapeDebugger

/-- What a search comes to. -/
inductive Finding where
  | found (index : Nat)
  | missing (index : Nat)
  deriving Repr, DecidableEq

namespace Finding

variable {table : List Nat} {entry i : Nat} {finding : Finding}

/-- What a finding says of a table: where the entry is, or that it is not there and where to insert it. -/
def Holds (table : List Nat) (entry : Nat) : Finding → Prop
  | .found i => table[i]? = some entry
  | .missing i =>
    entry ∉ table ∧ i ≤ table.length ∧ (table.take i ++ entry :: table.drop i).Pairwise (· ≤ ·)

/-- A function that searches every table that is in order, with repetitions or without. -/
def Searches (search : List Nat → Nat → Finding) : Prop :=
  ∀ table entry, table.Pairwise (· ≤ ·) → (search table entry).Holds table entry

/-- The number of entries up to and including the one searched for. -/
def count : Finding → Nat
  | .found i => i + 1
  | .missing i => i

/-- The index of the last of these entries, or the first index if there are none. -/
def last : Finding → Nat
  | .found i => i
  | .missing i => i - 1

theorem last_eq (finding : Finding) : finding.last = finding.count - 1 := by
  cases finding <;> rfl

/-- A count splits the table: the entries before it are not larger, those from it on are. -/
theorem countP_eq_of_split (hi : i ≤ table.length) (hfront : ∀ q ∈ table.take i, q ≤ entry)
    (hback : ∀ q ∈ table.drop i, entry < q) : table.countP (· ≤ entry) = i := by
  have htake : (table.take i).countP (· ≤ entry) = (table.take i).length :=
    List.countP_eq_length.2 fun q hmem => by simpa using hfront q hmem
  have hdrop : (table.drop i).countP (· ≤ entry) = 0 :=
    List.countP_eq_zero.2 fun q hmem => by simpa using hback q hmem
  calc table.countP (· ≤ entry)
    _ = (table.take i ++ table.drop i).countP (· ≤ entry) := by rw [List.take_append_drop]
    _ = (table.take i).length := by rw [List.countP_append, htake, hdrop, Nat.add_zero]
    _ = i := by rw [List.length_take, Nat.min_eq_left hi]

/-- In a table that grows strictly, a search counts the entries that are not larger. -/
theorem Holds.count_eq (h : finding.Holds table entry) (hsorted : table.Pairwise (· < ·)) :
    finding.count = table.countP (· ≤ entry) := by
  cases finding with
  | found i =>
    have hwithin : i < table.countP (· ≤ entry) := (le_iff_lt_countP hsorted h).1 (Nat.le_refl entry)
    have hend : ¬ i + 1 < table.countP (· ≤ entry) := by
      intro hlt
      have hnext := List.getElem?_eq_getElem (Nat.lt_of_lt_of_le hlt List.countP_le_length)
      have hle := (le_iff_lt_countP hsorted hnext).2 hlt
      exact Nat.not_le_of_lt (rel_of_index_lt hsorted (Nat.lt_succ_self i) h hnext) hle
    simp only [count]
    omega
  | missing i =>
    obtain ⟨habsent, hi, horder⟩ := h
    obtain ⟨-, hback, hfront⟩ := List.pairwise_append.1 horder
    have hne : ∀ q ∈ table, q ≠ entry := fun q hmem heq => habsent (heq ▸ hmem)
    refine (countP_eq_of_split hi (fun q hmem => ?_) fun q hmem => ?_).symm
    · exact hfront q hmem entry List.mem_cons_self
    · have hle := (List.pairwise_cons.1 hback).1 q hmem
      exact Nat.lt_of_le_of_ne hle (hne q (List.mem_of_mem_drop hmem)).symm

-- ---------------------------------------------------------------------------
-- Search by halves
-- ---------------------------------------------------------------------------

/-- Halve `size` entries from `base` on until one is left, at most `steps` times: go on with the second half
if it begins no later than the entry, and with the first one otherwise. -/
def narrow (table : List Nat) (entry : Nat) : Nat → Nat → Nat → Nat
  | 0, base, _ => base
  | steps + 1, base, size =>
    if 1 < size then
      let middle := base + size / 2
      narrow table entry steps (if entry < table.getD middle 0 then base else middle) (size - size / 2)
    else base

def bisect (table : List Nat) (entry : Nat) : Finding :=
  let base := narrow table entry table.length 0 table.length
  match table[base]? with
  | none => .missing 0
  | some q =>
    if q = entry then .found base
    else if q < entry then .missing (base + 1)
    else .missing base

/-- What halving keeps: the part that is left begins no later than the entry, unless nothing has been cut off
in front of it, and all behind it is larger. -/
structure Holding (table : List Nat) (entry base size : Nat) : Prop where
  size_pos : 0 < size
  within : base + size ≤ table.length
  reached : base = 0 ∨ ∃ q, table[base]? = some q ∧ q ≤ entry
  behind : ∀ j q, base + size ≤ j → table[j]? = some q → entry < q

theorem le_of_index_le {j p q : Nat} (hsorted : table.Pairwise (· ≤ ·)) (hij : i ≤ j)
    (hi : table[i]? = some p) (hj : table[j]? = some q) : p ≤ q := by
  rcases Nat.eq_or_lt_of_le hij with rfl | hlt
  · exact Nat.le_of_eq (Option.some.inj (hi.symm.trans hj))
  · exact rel_of_index_lt hsorted hlt hi hj

/-- An entry that is larger than all before an index and smaller than all from there on is missing there. -/
theorem holds_missing (hsorted : table.Pairwise (· ≤ ·)) (hi : i ≤ table.length)
    (hfront : ∀ j q, j < i → table[j]? = some q → q < entry)
    (hback : ∀ j q, i ≤ j → table[j]? = some q → entry < q) : (missing i).Holds table entry := by
  have htake : ∀ q ∈ table.take i, q < entry := by
    intro q hmem
    obtain ⟨j, hj, rfl⟩ := List.mem_take_iff_getElem.1 hmem
    exact hfront j _ (by omega) (List.getElem?_eq_getElem _)
  have hdrop : ∀ q ∈ table.drop i, entry < q := by
    intro q hmem
    obtain ⟨j, hj, rfl⟩ := List.mem_drop_iff_getElem.1 hmem
    exact hback (i + j) _ (Nat.le_add_right i j) (List.getElem?_eq_getElem _)
  refine ⟨fun hmem => ?_, hi, List.pairwise_append.2 ⟨hsorted.take, ?_, fun p hp q hq => ?_⟩⟩
  · rw [← List.take_append_drop i table] at hmem
    rcases List.mem_append.1 hmem with hmem | hmem
    · exact Nat.lt_irrefl entry (htake entry hmem)
    · exact Nat.lt_irrefl entry (hdrop entry hmem)
  · exact List.pairwise_cons.2 ⟨fun q hmem => Nat.le_of_lt (hdrop q hmem), hsorted.drop⟩
  · rcases List.mem_cons.1 hq with rfl | hq
    · exact Nat.le_of_lt (htake p hp)
    · exact Nat.le_of_lt (Nat.lt_trans (htake p hp) (hdrop q hq))

section Halving

variable {base size steps : Nat}

theorem holding_start (entry : Nat) (hne : 0 < table.length) :
    Holding table entry 0 table.length where
  size_pos := hne
  within := Nat.le_of_eq (Nat.zero_add _)
  reached := .inl rfl
  behind := by
    intro j q hj hq
    have := (List.getElem?_eq_some_iff.1 hq).1
    omega

/-- The second half is left only if the entry is smaller than its first entry, and so than all of it. -/
theorem Holding.halve (hsorted : table.Pairwise (· ≤ ·)) (h : Holding table entry base size)
    (hsize : 1 < size) :
    Holding table entry
      (if entry < table.getD (base + size / 2) 0 then base else base + size / 2)
      (size - size / 2) := by
  have hwithin := h.within
  have hmiddle : table[base + size / 2]? = some (table.getD (base + size / 2) 0) := by
    rw [List.getD_eq_getElem?_getD, List.getElem?_eq_getElem (show base + size / 2 < _ by omega)]
    rfl
  split
  · rename_i hbelow
    refine ⟨by omega, by omega, h.reached, fun j q hj hq => ?_⟩
    exact Nat.lt_of_lt_of_le hbelow (le_of_index_le hsorted (by omega) hmiddle hq)
  · rename_i hreached
    have hstart : base + size / 2 = 0 ∨ ∃ q, table[base + size / 2]? = some q ∧ q ≤ entry :=
      .inr ⟨_, hmiddle, Nat.le_of_not_lt hreached⟩
    refine ⟨by omega, by omega, hstart, fun j q hj hq => ?_⟩
    exact h.behind j q (by omega) hq

theorem Holding.narrow (hsorted : table.Pairwise (· ≤ ·)) (h : Holding table entry base size)
    (hsteps : size ≤ steps + 1) : Holding table entry (narrow table entry steps base size) 1 := by
  have hpos := h.size_pos
  induction steps generalizing base size with
  | zero =>
    obtain rfl : size = 1 := by omega
    exact h
  | succ steps ih =>
    rw [Finding.narrow]
    split
    · rename_i hsize
      have hhalf := h.halve hsorted hsize
      exact ih hhalf (by omega) hhalf.size_pos
    · obtain rfl : size = 1 := by omega
      exact h

end Halving

/-- Searching by halves comes to the entry, or to the place where it is missing. -/
theorem bisect_searches : Searches bisect := by
  intro table entry hsorted
  rcases Nat.eq_zero_or_pos table.length with hempty | hne
  · obtain rfl := List.eq_nil_of_length_eq_zero hempty
    exact ⟨List.not_mem_nil, Nat.le_refl 0, List.pairwise_singleton _ _⟩
  · have h := (holding_start entry hne).narrow hsorted (Nat.le_succ _)
    rw [bisect]
    generalize narrow table entry table.length 0 table.length = base at h
    obtain ⟨q, hq⟩ : ∃ q, table[base]? = some q := ⟨_, List.getElem?_eq_getElem h.within⟩
    have hbehind : ∀ j p, base + 1 ≤ j → table[j]? = some p → entry < p := h.behind
    simp only [hq]
    rcases Nat.lt_trichotomy q entry with hbelow | rfl | habove
    · rw [if_neg (Nat.ne_of_lt hbelow), if_pos hbelow]
      refine holds_missing hsorted h.within (fun j p hj hp => ?_) hbehind
      exact Nat.lt_of_le_of_lt (le_of_index_le hsorted (Nat.le_of_lt_succ hj) hp hq) hbelow
    · rw [if_pos rfl]
      exact hq
    · rw [if_neg (Nat.ne_of_gt habove), if_neg (Nat.lt_asymm habove)]
      -- nothing has been cut off in front of an entry that is larger
      have hbase : base = 0 := by
        rcases h.reached with hbase | ⟨p, hp, hle⟩
        · exact hbase
        · obtain rfl := Option.some.inj (hq.symm.trans hp)
          exact absurd hle (Nat.not_le_of_lt habove)
      subst hbase
      refine holds_missing hsorted (Nat.zero_le _) (fun j _ hj _ => absurd hj (Nat.not_lt_zero j))
        fun j p hj hp => ?_
      exact Nat.lt_of_lt_of_le habove (le_of_index_le hsorted hj hq hp)

/-- Of a table without order nothing is promised: here the first entry is missed. -/
example : bisect [1, 2, 5] 5 = .found 2 ∧ bisect [5, 1, 2] 5 = .missing 3 := by decide

end Finding

end TapeDebugger
