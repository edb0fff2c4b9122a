-- SUMMARY: Writing code in place of plain bytes: where every byte of a source goes, and that partners stay partners.
import TapeDebugger.Proofs.Program.Outline

/-!
# Substitutions

A substitution writes a text in place of every byte of a source. Brackets stay, and any other byte
becomes code: plain bytes and matched loops, or nothing at all. `Substitution.place` is where the text
for a byte begins.

Code is balanced and never falls below the depth it begins at, so the depth between two places is the
one between the bytes they come from, and in between it is no less. Hence a bracket waits just as long
as before, the brackets that code brings along are partners of each other only, and a bracket of the
source finds its partner, or none, as before (`closerOf?_place`, `openerOf?_place`).
-/

namespace TapeDebugger

open TapeDebugger.Bracket Outline

/-- A text for every byte that keeps the brackets of a source apart from those it adds. -/
structure Substitution where
  replace : UInt8 → List UInt8
  replace_opening : replace opening = [opening]
  replace_closing : replace closing = [closing]
  code_replace : ∀ byte, byte ≠ opening → byte ≠ closing → ∃ code : Code, replace byte = code.bytes

namespace Substitution

variable {σ : Substitution} {text : List UInt8} {byte : UInt8} {i j k o : Nat}

/-- The text with every byte replaced. -/
def image (σ : Substitution) (text : List UInt8) : List UInt8 := text.flatMap σ.replace

/-- Where the text for the byte at a position begins. -/
def place (σ : Substitution) (text : List UInt8) (i : Nat) : Nat := (σ.image (text.take i)).length

/-! ## Texts for bytes -/

theorem depth_replace (σ : Substitution) (byte : UInt8) : depth (σ.replace byte) = weight byte := by
  by_cases ho : byte = opening
  · rw [ho, σ.replace_opening]
    rfl
  · by_cases hc : byte = closing
    · rw [hc, σ.replace_closing]
      rfl
    · obtain ⟨code, hcode⟩ := σ.code_replace byte ho hc
      rw [hcode, depth_code, weight_of_plain ho hc]

/-- Only the text for a closing bracket falls below the depth it begins at. -/
theorem rises_replace (σ : Substitution) (hc : byte ≠ closing) : Rises (σ.replace byte) := by
  by_cases ho : byte = opening
  · rw [ho, σ.replace_opening]
    exact (rises_item (by simp) : Rises Item.loneOpen.bytes)
  · obtain ⟨code, hcode⟩ := σ.code_replace byte ho hc
    rw [hcode]
    exact rises_code code

/-- Only the text for an opening bracket rises towards its end. -/
theorem falls_replace (σ : Substitution) (ho : byte ≠ opening) : Falls (σ.replace byte) := by
  by_cases hc : byte = closing
  · rw [hc, σ.replace_closing]
    exact (falls_item (by simp) : Falls Item.loneClose.bytes)
  · obtain ⟨code, hcode⟩ := σ.code_replace byte ho hc
    rw [hcode]
    exact (rises_code code).falls (depth_code code)

/-- Before its end even the text for a closing bracket is not below the depth it begins at. -/
theorem depth_take_replace_nonneg (ho : o < (σ.replace byte).length) :
    0 ≤ depth ((σ.replace byte).take o) := by
  by_cases hc : byte = closing
  · rw [hc, σ.replace_closing] at ho
    obtain rfl : o = 0 := Nat.lt_one_iff.1 ho
    exact Int.le_refl 0
  · exact σ.rises_replace hc o

theorem depth_image (σ : Substitution) (text : List UInt8) :
    depth (σ.image text) = depth text := by
  induction text with
  | nil => rfl
  | cons byte text ih =>
    rw [image, List.flatMap_cons, depth_append, depth_replace, ← image, ih, depth_cons]

/-! ## Places -/

theorem image_append (σ : Substitution) (front back : List UInt8) :
    σ.image (front ++ back) = σ.image front ++ σ.image back :=
  List.flatMap_append

/-- In front of a place stands the image of what was in front of the byte. -/
theorem take_place (σ : Substitution) (text : List UInt8) (i : Nat) :
    (σ.image text).take (σ.place text i) = σ.image (text.take i) := by
  have hsplit := σ.image_append (text.take i) (text.drop i)
  rw [List.take_append_drop] at hsplit
  rw [hsplit]
  exact List.take_left

theorem image_eq_of_getElem? (h : text[i]? = some byte) :
    σ.image text = σ.image (text.take i) ++ (σ.replace byte ++ σ.image (text.drop (i + 1))) := by
  obtain ⟨hi, rfl⟩ := List.getElem?_eq_some_iff.1 h
  conv_lhs => rw [← List.take_append_drop i text, List.drop_eq_getElem_cons hi, image_append]
  rfl

theorem place_succ (h : text[i]? = some byte) :
    σ.place text (i + 1) = σ.place text i + (σ.replace byte).length := by
  obtain ⟨hi, rfl⟩ := List.getElem?_eq_some_iff.1 h
  rw [place, place, List.take_succ_eq_append_getElem hi, image_append, List.length_append]
  simp [image]

/-- A byte that is kept takes up one byte, as before. -/
theorem place_succ_of_kept (h : text[i]? = some byte) (hkept : σ.replace byte = [byte]) :
    σ.place text (i + 1) = σ.place text i + 1 := by
  rw [place_succ h, hkept]
  rfl

theorem place_length (σ : Substitution) (text : List UInt8) :
    σ.place text text.length = (σ.image text).length := by
  rw [place, List.take_length]

theorem place_mono (σ : Substitution) (text : List UInt8) (hij : i ≤ j) :
    σ.place text i ≤ σ.place text j := by
  have hsplit : text.take j = text.take i ++ (text.drop i).take (j - i) := by
    rw [← List.take_add, Nat.add_sub_of_le hij]
  rw [place, place, hsplit, image_append, List.length_append]
  exact Nat.le_add_right _ _

theorem place_le (σ : Substitution) (text : List UInt8) (i : Nat) :
    σ.place text i ≤ (σ.image text).length := by
  rw [place, ← take_place, List.length_take]
  exact Nat.min_le_right _ _

theorem getElem?_image (h : text[i]? = some byte) (ho : o < (σ.replace byte).length) :
    (σ.image text)[σ.place text i + o]? = (σ.replace byte)[o]? := by
  rw [image_eq_of_getElem? h, place, List.getElem?_append_right (Nat.le_add_right _ _),
    Nat.add_sub_cancel_left, List.getElem?_append_left ho]

/-- Every byte of the image belongs to the text for some byte. -/
theorem exists_place {q : Nat} (hq : q < (σ.image text).length) :
    ∃ k byte o, text[k]? = some byte ∧ o < (σ.replace byte).length ∧ q = σ.place text k + o := by
  induction text generalizing q with
  | nil => exact absurd hq (Nat.not_lt_zero q)
  | cons first text ih =>
    rw [image, List.flatMap_cons, List.length_append] at hq
    by_cases hfirst : q < (σ.replace first).length
    · exact ⟨0, first, q, rfl, hfirst, (Nat.zero_add q).symm⟩
    · have hrest : q - (σ.replace first).length < (σ.image text).length := by
        rw [image]
        omega
      obtain ⟨k, byte, o, hbyte, ho, hplace⟩ := ih hrest
      have hcons : σ.place (first :: text) (k + 1) = (σ.replace first).length + σ.place text k := by
        rw [place, place, List.take_succ_cons, image, List.flatMap_cons, List.length_append, ← image]
      exact ⟨k + 1, byte, o, hbyte, ho, by omega⟩

/-- What is placed before the text for a byte comes before that byte. -/
theorem lt_of_place_add_lt (h : σ.place text k + o < σ.place text j) : k < j := by
  by_contra hjk
  have := σ.place_mono text (Nat.le_of_not_lt hjk)
  omega

/-- What is placed behind a byte that is kept comes after it. -/
theorem lt_of_place_lt_add (hi : σ.place text (i + 1) = σ.place text i + 1)
    (hbyte : text[k]? = some byte) (ho : o < (σ.replace byte).length)
    (h : σ.place text i < σ.place text k + o) : i < k := by
  by_contra hki
  obtain hlt | rfl := Nat.lt_or_eq_of_le (Nat.le_of_not_lt hki)
  · have := σ.place_mono text hlt
    rw [place_succ hbyte] at this
    omega
  · rw [place_succ hbyte] at hi
    omega

theorem place_lt_place (hi : σ.place text (i + 1) = σ.place text i + 1) (hij : i < j) :
    σ.place text i < σ.place text j := by
  rw [← Nat.succ_le_iff, ← Nat.add_one, ← hi]
  exact σ.place_mono text hij

/-! ## Depth between places -/

section Partners

variable {source target : Array UInt8}

/-- The depth between two places is the depth between the bytes that they belong to. -/
theorem depthBetween_place (h : target.toList = σ.image source.toList) (hij : i ≤ j) :
    depthBetween target (σ.place source.toList i) (σ.place source.toList j) =
      depthBetween source i j := by
  have hzero : ∀ n, depthBetween target 0 (σ.place source.toList n) = depthBetween source 0 n := by
    intro n
    rw [depthBetween_zero, depthBetween_zero, h, take_place, depth_image]
  have htarget := @depthBetween_add target _ _ _ (Nat.zero_le _) (σ.place_mono source.toList hij)
  have hsource := @depthBetween_add source _ _ _ (Nat.zero_le i) hij
  rw [hzero, hzero] at htarget
  omega

/-- Within the text for a byte the depth is counted in that text. -/
theorem depthBetween_place_add (h : target.toList = σ.image source.toList)
    (hbyte : source.toList[k]? = some byte) (ho : o ≤ (σ.replace byte).length) :
    depthBetween target (σ.place source.toList k) (σ.place source.toList k + o) =
      depth ((σ.replace byte).take o) := by
  rw [image_eq_of_getElem? hbyte] at h
  rw [place, depthBetween_back h, List.take_append_of_le_length ho]

theorem depthBetween_add_place (h : target.toList = σ.image source.toList)
    (hbyte : source.toList[k]? = some byte) :
    depthBetween target (σ.place source.toList k + o) (σ.place source.toList (k + 1)) =
      depth ((σ.replace byte).drop o) := by
  rw [image_eq_of_getElem? hbyte, ← List.append_assoc] at h
  rw [place_succ hbyte, place, ← List.length_append, depthBetween_front h,
    List.drop_length_add_append]

/-! ## Partners stay partners -/

theorem getElem?_target (h : target.toList = σ.image source.toList)
    (hbyte : source.toList[k]? = some byte) (ho : o < (σ.replace byte).length) :
    target[σ.place source.toList k + o]? = (σ.replace byte)[o]? := by
  rw [← Array.getElem?_toList, h, getElem?_image hbyte ho]

theorem getElem?_target_of_kept (h : target.toList = σ.image source.toList)
    (hbyte : source.toList[k]? = some byte) (hkept : σ.replace byte = [byte]) :
    target[σ.place source.toList k]? = some byte := by
  have hfirst := getElem?_target (o := 0) h hbyte (by rw [hkept]; exact Nat.zero_lt_one)
  rw [hkept] at hfirst
  exact hfirst

/-- A bracket waits as long as before. -/
theorem waits_place (h : target.toList = σ.image source.toList) (hwaits : Waits source j i) :
    Waits target (σ.place source.toList j) (σ.place source.toList i) := by
  obtain ⟨hopen, hij, hpos⟩ := hwaits
  rw [← Array.getElem?_toList] at hopen
  have hnext := place_succ_of_kept hopen σ.replace_opening
  refine ⟨getElem?_target_of_kept h hopen σ.replace_opening, place_lt_place hnext hij,
    fun q hiq hqj => ?_⟩
  obtain hbefore | rfl := Nat.lt_or_eq_of_le hqj
  · have hq : q < (σ.image source.toList).length :=
      Nat.lt_of_lt_of_le hbefore (σ.place_le source.toList j)
    obtain ⟨k, byte, o, hbyte, ho, rfl⟩ := exists_place hq
    have hik := lt_of_place_lt_add hnext hbyte ho hiq
    have hsplit := @depthBetween_add target _ _ _ (σ.place_mono source.toList (Nat.le_of_lt hik))
      (Nat.le_add_right (σ.place source.toList k) o)
    rw [depthBetween_place h (Nat.le_of_lt hik), depthBetween_place_add h hbyte (Nat.le_of_lt ho)]
      at hsplit
    have := hpos k hik (Nat.le_of_lt (lt_of_place_add_lt hbefore))
    have := depth_take_replace_nonneg ho
    omega
  · rw [depthBetween_place h (Nat.le_of_lt hij)]
    exact hpos j hij (Nat.le_refl j)

/-- Partners stay partners. -/
theorem partners_place (h : target.toList = σ.image source.toList) (hp : Partners source i j) :
    Partners target (σ.place source.toList i) (σ.place source.toList j) := by
  have hclose := hp.getElem?_closer
  rw [← Array.getElem?_toList] at hclose
  refine ⟨waits_place h hp.1, ?_⟩
  rw [← place_succ_of_kept hclose σ.replace_closing,
    depthBetween_place h (Nat.le_succ_of_le (Nat.le_of_lt hp.lt))]
  exact hp.2

/-- Brackets that are partners after the replacement were so before. -/
theorem partners_of_place (h : target.toList = σ.image source.toList)
    (hopen : source.toList[i]? = some opening) (hclose : source.toList[j]? = some closing)
    (hp : Partners target (σ.place source.toList i) (σ.place source.toList j)) :
    Partners source i j := by
  have hij : i < j := lt_of_place_add_lt (o := 0) hp.lt
  have hnext := place_succ_of_kept hopen σ.replace_opening
  refine ⟨⟨(Array.getElem?_toList ..).symm.trans hopen, hij, fun k hik hkj => ?_⟩, ?_⟩
  · rw [← depthBetween_place h (Nat.le_of_lt hik)]
    exact hp.1.2.2 _ (place_lt_place hnext hik) (σ.place_mono source.toList hkj)
  · rw [← depthBetween_place h (Nat.le_succ_of_le (Nat.le_of_lt hij)),
      place_succ_of_kept hclose σ.replace_closing]
    exact hp.2

/-- An opening bracket of the source has its partner in the source: from it on, the depth never falls
to zero within the text for any other byte than a closing bracket. -/
theorem exists_closer_of_partners {q : Nat} (h : target.toList = σ.image source.toList)
    (hopen : source.toList[i]? = some opening) (hp : Partners target (σ.place source.toList i) q) :
    ∃ j, q = σ.place source.toList j ∧ Partners source i j := by
  have hnext := place_succ_of_kept hopen σ.replace_opening
  have hq : q < (σ.image source.toList).length := by
    rw [← h, Array.length_toList]
    exact hp.lt_size
  obtain ⟨k, byte, o, hbyte, ho, rfl⟩ := exists_place hq
  by_cases hc : byte = closing
  · subst hc
    rw [σ.replace_closing] at ho
    obtain rfl : o = 0 := Nat.lt_one_iff.1 ho
    exact ⟨k, rfl, partners_of_place h hopen hbyte hp⟩
  · have hik := place_lt_place hnext (lt_of_place_lt_add hnext hbyte ho hp.lt)
    have hpos := hp.1.2.2 _ hik (Nat.le_add_right _ o)
    have hsplit := @depthBetween_add target _ _ _ (Nat.le_of_lt hik)
      (Nat.le_add_right (σ.place source.toList k) (o + 1))
    rw [depthBetween_place_add (o := o + 1) h hbyte ho] at hsplit
    have hzero := hp.2
    rw [Nat.add_assoc] at hzero
    have := σ.rises_replace hc (o + 1)
    omega

/-- A closing bracket of the source has its partner in the source: up to it, the depth is never above
zero within the text for any other byte than an opening bracket. -/
theorem exists_opener_of_partners {q : Nat} (h : target.toList = σ.image source.toList)
    (hclose : source.toList[j]? = some closing) (hp : Partners target q (σ.place source.toList j)) :
    ∃ i, q = σ.place source.toList i ∧ Partners source i j := by
  have hq : q < (σ.image source.toList).length :=
    Nat.lt_of_lt_of_le hp.lt (σ.place_le source.toList j)
  obtain ⟨k, byte, o, hbyte, ho, rfl⟩ := exists_place hq
  by_cases hopen : byte = opening
  · subst hopen
    rw [σ.replace_opening] at ho
    obtain rfl : o = 0 := Nat.lt_one_iff.1 ho
    exact ⟨k, rfl, partners_of_place h hbyte hclose hp⟩
  · have hkj : σ.place source.toList (k + 1) ≤ σ.place source.toList j :=
      σ.place_mono source.toList (lt_of_place_add_lt hp.lt)
    have hpos := hp.1.2.2 (σ.place source.toList (k + 1)) (by rw [place_succ hbyte]; omega) hkj
    rw [depthBetween_add_place h hbyte] at hpos
    have := σ.falls_replace hopen o
    omega

/-! ## Lookups -/

variable {capacity capacity' : Nat} {p q : Pairing}

/-- Looking up a closing bracket after the replacement is looking it up before. -/
theorem closerOf?_place (h : target.toList = σ.image source.toList)
    (hp : Pairing.ofSource capacity source = .ok p) (hq : Pairing.ofSource capacity' target = .ok q)
    (hopen : source[i]? = some opening) :
    q.closerOf? (σ.place source.toList i) = (p.closerOf? i).map (σ.place source.toList) := by
  rw [← Array.getElem?_toList] at hopen
  ext j
  rw [Pairing.closerOf?_iff_partners hq, Option.map_eq_some_iff]
  simp only [Pairing.closerOf?_iff_partners hp]
  constructor
  · intro hpartners
    obtain ⟨k, rfl, hk⟩ := exists_closer_of_partners h hopen hpartners
    exact ⟨k, hk, rfl⟩
  · rintro ⟨k, hk, rfl⟩
    exact partners_place h hk

/-- Looking up an opening bracket after the replacement is looking it up before. -/
theorem openerOf?_place (h : target.toList = σ.image source.toList)
    (hp : Pairing.ofSource capacity source = .ok p) (hq : Pairing.ofSource capacity' target = .ok q)
    (hclose : source[j]? = some closing) :
    q.openerOf? (σ.place source.toList j) = (p.openerOf? j).map (σ.place source.toList) := by
  rw [← Array.getElem?_toList] at hclose
  ext i
  rw [Pairing.openerOf?_iff_partners hq, Option.map_eq_some_iff]
  simp only [Pairing.openerOf?_iff_partners hp]
  constructor
  · intro hpartners
    obtain ⟨k, rfl, hk⟩ := exists_opener_of_partners h hclose hpartners
    exact ⟨k, hk, rfl⟩
  · rintro ⟨k, hk, rfl⟩
    exact partners_place h hk

end Partners

end Substitution

end TapeDebugger
