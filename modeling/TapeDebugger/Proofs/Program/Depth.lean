-- SUMMARY: Bracket depth: how many brackets a stretch of a source opens and does not close, and which brackets are partners.
import TapeDebugger.Program.Pairing
import Mathlib.Order.Bounds.Basic
import Mathlib.Order.Lattice.Nat

/-!
# Bracket depth

The partner of an opening bracket is where the depth, counted from that bracket, comes back to zero
for the first time. Nothing here knows of a scan or a stack: `Bracket.Partners` is a property of the
source alone. It can be read from either end, as the least balanced stretch from the opening bracket
(`partners_iff_isLeast`) and as the least one up to the closing bracket (`partners_iff_isGreatest`).
-/

namespace TapeDebugger.Bracket

/-! ## The depth of a text -/

/-- What a byte adds to the depth. -/
def weight (byte : UInt8) : Int :=
  if byte = opening then 1 else if byte = closing then -1 else 0

/-- The brackets that a text opens less those that it closes. -/
def depth : List UInt8 → Int
  | [] => 0
  | byte :: bytes => weight byte + depth bytes

@[simp] theorem weight_opening : weight opening = 1 := rfl

@[simp] theorem weight_closing : weight closing = -1 := rfl

theorem weight_of_plain {byte : UInt8} (ho : byte ≠ opening) (hc : byte ≠ closing) :
    weight byte = 0 := by
  simp only [weight, if_neg ho, if_neg hc]

theorem weight_le_one (byte : UInt8) : weight byte ≤ 1 := by
  unfold weight; split
  · exact Int.le_refl 1
  · split <;> decide

theorem neg_one_le_weight (byte : UInt8) : -1 ≤ weight byte := by
  unfold weight; split
  · decide
  · split <;> decide

theorem eq_opening_of_weight_pos {byte : UInt8} (h : 0 < weight byte) : byte = opening := by
  unfold weight at h
  split at h
  · assumption
  · split at h <;> contradiction

@[simp] theorem depth_nil : depth [] = 0 := rfl

@[simp] theorem depth_cons (byte : UInt8) (bytes : List UInt8) :
    depth (byte :: bytes) = weight byte + depth bytes := rfl

@[simp] theorem depth_append (front back : List UInt8) :
    depth (front ++ back) = depth front + depth back := by
  induction front with
  | nil => exact (Int.zero_add _).symm
  | cons byte front ih => rw [List.cons_append, depth_cons, depth_cons, ih, Int.add_assoc]

theorem depth_eq_count_sub_count (bytes : List UInt8) :
    depth bytes = bytes.count opening - bytes.count closing := by
  induction bytes with
  | nil => rfl
  | cons byte bytes ih =>
    rw [depth_cons, ih]
    by_cases ho : byte = opening
    · subst ho
      rw [List.count_cons_self, List.count_cons_of_ne (by decide), weight_opening]
      omega
    · by_cases hc : byte = closing
      · subst hc
        rw [List.count_cons_self, List.count_cons_of_ne (by decide), weight_closing]
        omega
      · rw [List.count_cons_of_ne ho, List.count_cons_of_ne hc, weight_of_plain ho hc]
        omega

/-! ## The depth of a stretch of a source -/

/-- The depth of the bytes from position `first` up to position `stop`, which is not included. -/
def depthBetween (source : Array UInt8) (first stop : Nat) : Int :=
  depth (source.extract first stop).toList

/-- The bytes from `first` to `last`, both included, hold as many opening as closing brackets. -/
def Balanced (source : Array UInt8) (first last : Nat) : Prop :=
  (source.extract first (last + 1)).count opening = (source.extract first (last + 1)).count closing

instance (source : Array UInt8) (first last : Nat) : Decidable (Balanced source first last) :=
  inferInstanceAs (Decidable (_ = _))

theorem balanced_iff {source : Array UInt8} {first last : Nat} :
    Balanced source first last ↔ depthBetween source first (last + 1) = 0 := by
  simp only [Balanced, depthBetween, depth_eq_count_sub_count, ← Array.count_toList]
  omega

section Stretches

variable {source : Array UInt8} {i j k : Nat}

theorem depthBetween_add (hij : i ≤ j) (hjk : j ≤ k) :
    depthBetween source i k = depthBetween source i j + depthBetween source j k := by
  rw [depthBetween, depthBetween, depthBetween, ← depth_append, ← Array.toList_append,
    Array.extract_append_extract, Nat.min_eq_left hij, Nat.max_eq_right hjk]

theorem depthBetween_one {byte : UInt8} (h : source[i]? = some byte) :
    depthBetween source i (i + 1) = weight byte := by
  obtain ⟨hi, rfl⟩ := Array.getElem?_eq_some_iff.1 h
  have hone : source.extract i (i + 1) = #[source[i]] := by
    rw [Array.extract_succ_right (Nat.lt_succ_self i) hi,
      Array.extract_empty_of_stop_le_start (Nat.le_refl i)]
    rfl
  rw [depthBetween, hone, depth_cons, depth_nil, Int.add_zero]

theorem depthBetween_succ {byte : UInt8} (hij : i ≤ j) (h : source[j]? = some byte) :
    depthBetween source i (j + 1) = depthBetween source i j + weight byte := by
  rw [depthBetween_add hij (Nat.le_succ j), depthBetween_one h]

/-- Past the end of the source there is nothing to count. -/
theorem depthBetween_past (hij : i ≤ j) (h : source.size ≤ j) :
    depthBetween source i (j + 1) = depthBetween source i j := by
  have hempty : source.extract j (j + 1) = #[] := Array.extract_empty_of_size_le_start h
  rw [depthBetween_add hij (Nat.le_succ j), depthBetween, depthBetween, hempty, depth_nil,
    Int.add_zero]

theorem depthBetween_zero (source : Array UInt8) (n : Nat) :
    depthBetween source 0 n = depth (source.toList.take n) := by
  rw [depthBetween, Array.toList_extract, List.extract_eq_take_drop, List.drop_zero, Nat.sub_zero]

/-- Behind the front of a source, stretches are counted in the back. -/
theorem depthBetween_back {front back : List UInt8} (h : source.toList = front ++ back) (k : Nat) :
    depthBetween source front.length (front.length + k) = depth (back.take k) := by
  rw [depthBetween, Array.toList_extract, List.extract_eq_take_drop, h, List.drop_left,
    Nat.add_sub_cancel_left]

/-- Up to the back of a source, stretches are counted in the front. -/
theorem depthBetween_front {front back : List UInt8} (h : source.toList = front ++ back) (i : Nat) :
    depthBetween source i front.length = depth (front.drop i) := by
  rw [depthBetween, Array.toList_extract, List.extract_eq_take_drop, h, List.drop_append,
    List.take_append_of_le_length (by simp), List.take_of_length_le (by simp)]

end Stretches

/-! ## Waiting brackets and partners -/

/-- The opening bracket at `i` is among the first `n` bytes, and none of them closes it. -/
def Waits (source : Array UInt8) (n i : Nat) : Prop :=
  source[i]? = some opening ∧ i < n ∧ ∀ j, i < j → j ≤ n → 0 < depthBetween source i j

/-- The bracket at `j` closes the one at `i`. -/
def Partners (source : Array UInt8) (i j : Nat) : Prop :=
  Waits source j i ∧ depthBetween source i (j + 1) = 0

/-- One more byte keeps a bracket waiting as long as the depth from it stays above zero, and may be
an opening bracket itself. -/
theorem waits_succ_iff {source : Array UInt8} {n i : Nat} :
    Waits source (n + 1) i ↔
      (Waits source n i ∧ 0 < depthBetween source i (n + 1)) ∨
        (i = n ∧ source[n]? = some opening) := by
  constructor
  · rintro ⟨hopen, hlt, hpos⟩
    by_cases hin : i = n
    · exact .inr ⟨hin, hin ▸ hopen⟩
    · have hlt' : i < n := by omega
      exact .inl ⟨⟨hopen, hlt', fun j hij hjn => hpos j hij (by omega)⟩,
        hpos (n + 1) hlt (Nat.le_refl _)⟩
  · rintro (⟨⟨hopen, hlt, hpos⟩, hlast⟩ | ⟨rfl, hopen⟩)
    · refine ⟨hopen, by omega, fun j hij hjn => ?_⟩
      by_cases hj : j = n + 1
      · rw [hj]; exact hlast
      · exact hpos j hij (by omega)
    · refine ⟨hopen, Nat.lt_succ_self i, fun j hij hjn => ?_⟩
      obtain rfl : j = i + 1 := by omega
      rw [depthBetween_one hopen, weight_opening]
      decide

section Partners

variable {source : Array UInt8} {i j i' j' : Nat}

theorem Waits.depth_pos {n : Nat} (h : Waits source n i) : 0 < depthBetween source i n :=
  h.2.2 n h.2.1 (Nat.le_refl n)

theorem Partners.lt (h : Partners source i j) : i < j := h.1.2.1

theorem Partners.getElem?_opener (h : Partners source i j) : source[i]? = some opening := h.1.1

theorem Partners.lt_size (h : Partners source i j) : j < source.size := by
  by_contra hj
  have hpast := depthBetween_past (i := i) (Nat.le_of_lt h.lt) (Nat.le_of_not_lt hj)
  have hpos := h.1.depth_pos
  have hzero := h.2
  omega

/-- The depth falls to zero at the partner, so the partner is a closing bracket. -/
theorem Partners.getElem?_closer (h : Partners source i j) : source[j]? = some closing := by
  obtain ⟨byte, hbyte⟩ : ∃ byte, source[j]? = some byte :=
    ⟨_, Array.getElem?_eq_getElem h.lt_size⟩
  have hstep := depthBetween_succ (Nat.le_of_lt h.lt) hbyte
  have hpos := h.1.depth_pos
  have hzero := h.2
  have hneg : weight byte < 0 := by omega
  unfold weight at hneg
  split at hneg
  · contradiction
  · split at hneg
    · rw [hbyte, ‹byte = closing›]
    · contradiction

theorem Partners.closer_unique (h : Partners source i j) (h' : Partners source i j') : j = j' := by
  rcases Nat.lt_trichotomy j j' with hlt | heq | hgt
  · have := h'.1.2.2 (j + 1) (Nat.lt_succ_of_lt h.lt) hlt
    have := h.2
    omega
  · exact heq
  · have := h.1.2.2 (j' + 1) (Nat.lt_succ_of_lt h'.lt) hgt
    have := h'.2
    omega

/-- Two pairs never cross: one that begins inside another also ends inside it. -/
theorem Partners.nested (h : Partners source i j) (h' : Partners source i' j') (hi : i < i')
    (hj : i' < j) : j' < j := by
  by_contra hle
  have hsplit : depthBetween source i (j + 1) =
      depthBetween source i i' + depthBetween source i' (j + 1) :=
    depthBetween_add (by omega) (by omega)
  have houter := h.2
  have hinner := h.1.2.2 i' hi (Nat.le_of_lt hj)
  rcases Nat.lt_or_ge j j' with hlt | hge
  · have := h'.1.2.2 (j + 1) (Nat.lt_succ_of_lt hj) hlt
    omega
  · obtain rfl : j = j' := by omega
    have := h'.2
    omega

theorem Partners.opener_unique (h : Partners source i j) (h' : Partners source i' j) : i = i' := by
  rcases Nat.lt_trichotomy i i' with hlt | heq | hgt
  · exact absurd (h.nested h' hlt h'.lt) (Nat.lt_irrefl j)
  · exact heq
  · exact absurd (h'.nested h hgt h.lt) (Nat.lt_irrefl j)

/-- Read from the opening bracket: the partner ends the least balanced stretch. -/
theorem partners_iff_isLeast (hopen : source[i]? = some opening) :
    Partners source i j ↔ IsLeast {q | i < q ∧ q < source.size ∧ Balanced source i q} j := by
  constructor
  · intro h
    refine ⟨⟨h.lt, h.lt_size, balanced_iff.2 h.2⟩, ?_⟩
    rintro q ⟨hiq, -, hq⟩
    by_contra hqj
    have hpos := h.1.2.2 (q + 1) (by omega) (by omega)
    have hzero := balanced_iff.1 hq
    omega
  · rintro ⟨⟨hij, hsize, hbal⟩, hleast⟩
    refine ⟨⟨hopen, hij, fun q hiq hqj => ?_⟩, balanced_iff.1 hbal⟩
    -- The depth starts at one, changes by at most one with each byte, and is not zero before `j`.
    induction q, hiq using Nat.le_induction with
    | base =>
      rw [depthBetween_one hopen, weight_opening]
      decide
    | succ q hiq ih =>
      have hpos := ih (by omega)
      have hqsize : q < source.size := by omega
      have hstep := depthBetween_succ (i := i) (by omega) (Array.getElem?_eq_getElem hqsize)
      have hweight := neg_one_le_weight source[q]
      have hne : depthBetween source i (q + 1) ≠ 0 := fun hzero => by
        have := hleast ⟨by omega, hqsize, balanced_iff.2 hzero⟩
        omega
      omega

/-- Read from the closing bracket: the partner begins the least balanced stretch. -/
theorem partners_iff_isGreatest (hclose : source[j]? = some closing) :
    Partners source i j ↔ IsGreatest {q | q < j ∧ Balanced source q j} i := by
  constructor
  · intro h
    refine ⟨⟨h.lt, balanced_iff.2 h.2⟩, ?_⟩
    rintro q ⟨hqj, hq⟩
    by_contra hiq
    have hpos := h.1.2.2 q (by omega) (by omega)
    have hsplit : depthBetween source i (j + 1) =
        depthBetween source i q + depthBetween source q (j + 1) :=
      depthBetween_add (by omega) (by omega)
    have hzero := balanced_iff.1 hq
    have houter := h.2
    omega
  · rintro ⟨⟨hij, hbal⟩, hgreatest⟩
    have hsize : j < source.size := (Array.getElem?_eq_some_iff.1 hclose).1
    -- Downwards from `j` the depth up to `j` starts at minus one and is not zero above `i`.
    have hneg : ∀ d, i + d < j → depthBetween source (j - d) (j + 1) < 0 := by
      intro d
      induction d with
      | zero =>
        intro _
        rw [Nat.sub_zero, depthBetween_one hclose, weight_closing]
        decide
      | succ d ih =>
        intro hd
        have hprev := ih (by omega)
        have hq : j - (d + 1) < source.size := by omega
        have hsplit : depthBetween source (j - (d + 1)) (j + 1) =
            depthBetween source (j - (d + 1)) (j - d) + depthBetween source (j - d) (j + 1) :=
          depthBetween_add (by omega) (by omega)
        have hone := depthBetween_one (Array.getElem?_eq_getElem hq)
        rw [show j - (d + 1) + 1 = j - d by omega] at hone
        have hweight := weight_le_one source[j - (d + 1)]
        have hne : depthBetween source (j - (d + 1)) (j + 1) ≠ 0 := fun hzero => by
          have := hgreatest ⟨by omega, balanced_iff.2 hzero⟩
          omega
        omega
    have hzero := balanced_iff.1 hbal
    have hpos : ∀ q, i < q → q ≤ j → 0 < depthBetween source i q := by
      intro q hiq hqj
      have hsplit : depthBetween source i (j + 1) =
          depthBetween source i q + depthBetween source q (j + 1) :=
        depthBetween_add (by omega) (by omega)
      have := hneg (j - q) (by omega)
      rw [show j - (j - q) = q by omega] at this
      omega
    have hisize : i < source.size := by omega
    have hone := depthBetween_one (Array.getElem?_eq_getElem hisize)
    have hopen : source[i] = opening := by
      apply eq_opening_of_weight_pos
      have := hpos (i + 1) (by omega) (by omega)
      omega
    refine ⟨⟨?_, hij, hpos⟩, hzero⟩
    rw [Array.getElem?_eq_getElem hisize, hopen]

/-- An opening bracket has no partner exactly when no stretch from it is balanced. -/
theorem forall_not_partners_opener_iff (hopen : source[i]? = some opening) :
    (∀ j, ¬ Partners source i j) ↔ ∀ q, i < q → q < source.size → ¬ Balanced source i q := by
  simp only [partners_iff_isLeast hopen]
  constructor
  · intro hnone q hiq hq hbal
    exact hnone _ ⟨Nat.sInf_mem ⟨q, hiq, hq, hbal⟩, fun q hq => Nat.sInf_le hq⟩
  · rintro hnone j ⟨⟨hij, hj, hbal⟩, -⟩
    exact hnone j hij hj hbal

/-- A closing bracket has no partner exactly when no stretch up to it is balanced. -/
theorem forall_not_partners_closer_iff (hclose : source[j]? = some closing) :
    (∀ i, ¬ Partners source i j) ↔ ∀ q, q < j → ¬ Balanced source q j := by
  simp only [partners_iff_isGreatest hclose]
  constructor
  · intro hnone q hqj hbal
    have hbounded : BddAbove {q | q < j ∧ Balanced source q j} := ⟨j, fun q hq => Nat.le_of_lt hq.1⟩
    exact hnone _ ⟨Nat.sSup_mem ⟨q, hqj, hbal⟩ hbounded, fun q hq => le_csSup hbounded hq⟩
  · rintro hnone i ⟨⟨hij, hbal⟩, -⟩
    exact hnone i hij hbal

/-- The brackets without a partner are those that wait up to the end of the source. -/
theorem waits_size_iff : Waits source source.size i ↔
    source[i]? = some opening ∧ ∀ j, ¬ Partners source i j := by
  constructor
  · intro hwaits
    refine ⟨hwaits.1, fun j hp => ?_⟩
    have hpos := hwaits.2.2 (j + 1) (Nat.lt_succ_of_lt hp.lt) hp.lt_size
    have hzero := hp.2
    omega
  · rintro ⟨hopen, hnone⟩
    have hsize : i < source.size := (Array.getElem?_eq_some_iff.1 hopen).1
    have hwaits (n : Nat) (hin : i + 1 ≤ n) (hn : n ≤ source.size) : Waits source n i := by
      induction n, hin using Nat.le_induction with
      | base => exact waits_succ_iff.2 (.inr ⟨rfl, hopen⟩)
      | succ n hin ih =>
        -- one byte takes the depth down by one at most, and at zero it would be the partner
        have hbefore := ih (Nat.le_of_succ_le hn)
        have hpos := hbefore.depth_pos
        have hstep := depthBetween_succ (i := i) (Nat.le_of_succ_le hin) (Array.getElem?_eq_getElem hn)
        have hweight := neg_one_le_weight source[n]
        have hne : depthBetween source i (n + 1) ≠ 0 := fun hzero => hnone n ⟨hbefore, hzero⟩
        exact waits_succ_iff.2 (.inl ⟨hbefore, by omega⟩)
    exact hwaits source.size hsize (Nat.le_refl _)

end Partners

end TapeDebugger.Bracket
