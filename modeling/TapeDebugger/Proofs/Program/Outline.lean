-- SUMMARY: The outline of a source: matched loops as trees, and the brackets that stay alone between them.
import TapeDebugger.Proofs.Program.Pairing
import Mathlib.Data.List.Basic

/-!
# Outlines

Any text is a list of items: plain bytes, matched loops, and brackets without a partner. The body of
a loop holds plain bytes and matched loops only. `Outline.parse` reads a text from its end: an
opening bracket takes everything up to the first closing bracket that is still alone as its body.

An outline is lone closing brackets first and lone opening ones last (`parse_ordered`), with code
between them. So the depth never falls below zero behind a lone opening bracket, and never rises
towards a lone closing one, which is why the pairing has no partner for either. A matched loop is a
balanced stretch, and its two brackets are partners.
-/

namespace TapeDebugger.Outline

open TapeDebugger.Bracket

/-! ## Code and items -/

/-- A byte that is no bracket. -/
def Plain : Type := { byte : UInt8 // byte ≠ opening ∧ byte ≠ closing }

/-- A list of plain bytes and matched loops. -/
inductive Code where
  | nil
  | byte (b : Plain) (rest : Code)
  | loop (body rest : Code)

/-- What may stand at the top of a text. -/
inductive Item where
  | byte (b : Plain)
  | loop (body : Code)
  /-- A closing bracket without a partner. -/
  | loneClose
  /-- An opening bracket without a partner. -/
  | loneOpen

def Code.bytes : Code → List UInt8
  | .nil => []
  | .byte b rest => b.val :: rest.bytes
  | .loop body rest => opening :: (body.bytes ++ closing :: rest.bytes)

def Item.bytes : Item → List UInt8
  | .byte b => [b.val]
  | .loop body => opening :: (body.bytes ++ [closing])
  | .loneClose => [closing]
  | .loneOpen => [opening]

/-- The text that a list of items stands for. -/
def bytes (items : List Item) : List UInt8 := items.flatMap Item.bytes

@[simp] theorem bytes_nil : bytes [] = [] := rfl

@[simp] theorem bytes_cons (item : Item) (items : List Item) :
    bytes (item :: items) = item.bytes ++ bytes items := rfl

@[simp] theorem bytes_append (front back : List Item) :
    bytes (front ++ back) = bytes front ++ bytes back :=
  List.flatMap_append

/-! ## Parsing -/

/-- The code in front of the first lone closing bracket, and the items behind it. -/
def split : List Item → Option (Code × List Item)
  | [] => none
  | .byte b :: items => (split items).map fun (code, back) => (.byte b code, back)
  | .loop body :: items => (split items).map fun (code, back) => (.loop body code, back)
  | .loneClose :: items => some (.nil, items)
  | .loneOpen :: _ => none

/-- The items of a text. -/
def parse : List UInt8 → List Item
  | [] => []
  | byte :: rest =>
    if ho : byte = opening then
      match split (parse rest) with
      | some (body, back) => .loop body :: back
      | none => .loneOpen :: parse rest
    else if hc : byte = closing then
      .loneClose :: parse rest
    else
      .byte ⟨byte, ho, hc⟩ :: parse rest

theorem bytes_of_split {items back : List Item} {code : Code} (h : split items = some (code, back)) :
    bytes items = code.bytes ++ closing :: bytes back := by
  induction items generalizing code with
  | nil => cases h
  | cons item items ih =>
    cases item with
    | byte b =>
      obtain ⟨⟨code', back'⟩, hsplit, heq⟩ := Option.map_eq_some_iff.1 h
      cases heq
      rw [bytes_cons, ih hsplit]
      rfl
    | loop body =>
      obtain ⟨⟨code', back'⟩, hsplit, heq⟩ := Option.map_eq_some_iff.1 h
      cases heq
      rw [bytes_cons, ih hsplit]
      simp [Item.bytes, Code.bytes]
    | loneClose =>
      cases h
      rfl
    | loneOpen => cases h

/-- Nothing of a text is lost. -/
theorem bytes_parse (text : List UInt8) : bytes (parse text) = text := by
  induction text with
  | nil => rfl
  | cons byte rest ih =>
    unfold parse
    split
    · rename_i ho
      split
      · rename_i body back hsplit
        rw [← ih, bytes_of_split hsplit, ho]
        simp [Item.bytes]
      · rw [bytes_cons, ih, ho]
        rfl
    · split
      · rename_i hc
        rw [bytes_cons, ih, hc]
        rfl
      · rw [bytes_cons, ih]
        rfl

/-! ## The order of lone brackets -/

/-- No lone closing bracket stands behind a lone opening one; the two would be partners. -/
def Ordered (items : List Item) : Prop :=
  items.Pairwise fun item later => item = .loneOpen → later ≠ .loneClose

theorem Ordered.of_split {items back : List Item} {code : Code} (h : Ordered items)
    (hsplit : split items = some (code, back)) : Ordered back := by
  induction items generalizing code with
  | nil => cases hsplit
  | cons item items ih =>
    have htail : Ordered items := (List.pairwise_cons.1 h).2
    cases item with
    | byte | loop =>
      obtain ⟨⟨code', back'⟩, hsplit', heq⟩ := Option.map_eq_some_iff.1 hsplit
      cases heq
      exact ih htail hsplit'
    | loneClose =>
      cases hsplit
      exact htail
    | loneOpen => cases hsplit

theorem not_mem_of_split_eq_none {items : List Item} (h : Ordered items)
    (hsplit : split items = none) : Item.loneClose ∉ items := by
  induction items with
  | nil => exact List.not_mem_nil
  | cons item items ih =>
    obtain ⟨hhead, htail⟩ := List.pairwise_cons.1 h
    cases item with
    | byte | loop =>
      have hsplit' : split items = none := by simpa [split] using hsplit
      simpa using ih htail hsplit'
    | loneClose => cases hsplit
    | loneOpen =>
      intro hmem
      exact hhead _ (by simpa using hmem) rfl rfl

theorem parse_ordered (text : List UInt8) : Ordered (parse text) := by
  induction text with
  | nil => exact List.Pairwise.nil
  | cons byte rest ih =>
    unfold parse
    split
    · split
      · rename_i body back hsplit
        exact List.pairwise_cons.2 ⟨fun _ _ => Item.noConfusion, ih.of_split hsplit⟩
      · rename_i hsplit
        refine List.pairwise_cons.2 ⟨fun later hlater _ heq => ?_, ih⟩
        exact not_mem_of_split_eq_none ih hsplit (heq ▸ hlater)
    · split
      · exact List.pairwise_cons.2 ⟨fun _ _ => Item.noConfusion, ih⟩
      · exact List.pairwise_cons.2 ⟨fun _ _ => Item.noConfusion, ih⟩

/-! ## One outline for each text -/

/-- Code as items at the top of a text. -/
def Code.items : Code → List Item
  | .nil => []
  | .byte b rest => .byte b :: rest.items
  | .loop body rest => .loop body :: rest.items

theorem split_items (code : Code) (back : List Item) :
    split (code.items ++ .loneClose :: back) = some (code, back) := by
  induction code with
  | nil => rfl
  | byte b rest ih => simp [Code.items, split, ih]
  | loop body rest _ ih => simp [Code.items, split, ih]

theorem parse_plain (b : Plain) (text : List UInt8) :
    parse (b.val :: text) = .byte b :: parse text := by
  rw [parse, dif_neg b.2.1, dif_neg b.2.2]
  rfl

theorem parse_closing (text : List UInt8) : parse (closing :: text) = .loneClose :: parse text := by
  rw [parse, dif_neg (by decide), dif_pos rfl]

theorem parse_opening_of_split {text : List UInt8} {body : Code} {back : List Item}
    (h : split (parse text) = some (body, back)) : parse (opening :: text) = .loop body :: back := by
  rw [parse, dif_pos rfl, h]

theorem parse_code (code : Code) (text : List UInt8) :
    parse (code.bytes ++ text) = code.items ++ parse text := by
  induction code generalizing text with
  | nil => rfl
  | byte b rest ih => rw [Code.bytes, List.cons_append, parse_plain, ih]; rfl
  | loop body rest ihb ihr =>
    have hbody : parse (body.bytes ++ closing :: (rest.bytes ++ text)) =
        body.items ++ .loneClose :: (rest.items ++ parse text) := by
      rw [ihb, parse_closing, ihr]
    rw [Code.bytes, List.cons_append, List.append_assoc, List.cons_append,
      parse_opening_of_split (hbody ▸ split_items body _)]
    rfl

theorem split_eq_none {items : List Item} (h : Item.loneClose ∉ items) : split items = none := by
  induction items with
  | nil => rfl
  | cons item items ih =>
    rw [List.mem_cons, not_or] at h
    cases item with
    | byte | loop => simp [split, ih h.2]
    | loneClose => exact absurd rfl h.1
    | loneOpen => rfl

/-- A list of items whose lone brackets are in order is what its text is parsed to. -/
theorem parse_bytes {items : List Item} (h : Ordered items) : parse (bytes items) = items := by
  induction items with
  | nil => rfl
  | cons item items ih =>
    obtain ⟨hhead, htail⟩ := List.pairwise_cons.1 h
    rw [bytes_cons]
    cases item with
    | byte b => rw [Item.bytes, List.singleton_append, parse_plain, ih htail]
    | loop body =>
      have hbody : parse (body.bytes ++ closing :: bytes items) =
          body.items ++ .loneClose :: items := by
        rw [parse_code, parse_closing, ih htail]
      rw [Item.bytes, List.cons_append, List.append_assoc, List.singleton_append,
        parse_opening_of_split (hbody ▸ split_items body _)]
    | loneClose => rw [Item.bytes, List.singleton_append, parse_closing, ih htail]
    | loneOpen =>
      have hnone : split items = none := split_eq_none fun hmem => hhead _ hmem rfl rfl
      rw [Item.bytes, List.singleton_append, parse, dif_pos rfl, ih htail, hnone]

/-- Every text has exactly one outline. -/
theorem eq_parse_iff {items : List Item} {text : List UInt8} :
    items = parse text ↔ bytes items = text ∧ Ordered items := by
  constructor
  · rintro rfl
    exact ⟨bytes_parse text, parse_ordered text⟩
  · rintro ⟨rfl, h⟩
    exact (parse_bytes h).symm

/-! ## Depth in an outline -/

/-- The depth is never below zero, counted from the start. -/
def Rises (text : List UInt8) : Prop := ∀ k, 0 ≤ depth (text.take k)

/-- The depth is never above zero, counted up to the end. -/
def Falls (text : List UInt8) : Prop := ∀ k, depth (text.drop k) ≤ 0

theorem Rises.append {front back : List UInt8} (hf : Rises front) (hb : Rises back) :
    Rises (front ++ back) := by
  intro k
  rw [List.take_append, depth_append]
  exact Int.add_nonneg (hf k) (hb _)

theorem Falls.append {front back : List UInt8} (hf : Falls front) (hb : Falls back) :
    Falls (front ++ back) := by
  intro k
  rw [List.drop_append, depth_append]
  exact Int.add_nonpos (hf k) (hb _)

/-- One byte in front raises the depth if it adds to it. -/
theorem Rises.cons {text : List UInt8} {b : UInt8} (hb : 0 ≤ weight b) (h : Rises text) :
    Rises (b :: text) := by
  intro k
  cases k with
  | zero => exact Int.le_refl 0
  | succ k =>
    rw [List.take_succ_cons, depth_cons]
    exact Int.add_nonneg hb (h k)

/-- Inside a pair of brackets the depth is one higher, which the closing bracket takes back. -/
theorem Rises.wrap {text : List UInt8} (h : Rises text) : Rises (opening :: (text ++ [closing])) := by
  intro k
  cases k with
  | zero => exact Int.le_refl 0
  | succ k =>
    have htext := h k
    have hclose : -1 ≤ depth ([closing].take (k - text.length)) := by
      cases k - text.length <;> simp
    rw [List.take_succ_cons, depth_cons, weight_opening, List.take_append, depth_append]
    omega

theorem weight_plain (b : Plain) : weight b.val = 0 := weight_of_plain b.2.1 b.2.2

@[simp] theorem depth_code (code : Code) : depth code.bytes = 0 := by
  induction code with
  | nil => rfl
  | byte b rest ih => rw [Code.bytes, depth_cons, weight_plain, ih]; rfl
  | loop body rest ihb ihr =>
    rw [Code.bytes, depth_cons, depth_append, depth_cons, ihb, ihr]
    rfl

theorem rises_code (code : Code) : Rises code.bytes := by
  induction code with
  | nil => intro k; simp [Code.bytes]
  | byte b rest ih => exact ih.cons (Int.le_of_eq (weight_plain b).symm)
  | loop body rest ihb ihr =>
    have hsplit : (Code.loop body rest).bytes =
        (opening :: (body.bytes ++ [closing])) ++ rest.bytes := by simp [Code.bytes]
    rw [hsplit]
    exact ihb.wrap.append ihr

/-- What is balanced and rises from its start falls towards its end. -/
theorem Rises.falls {text : List UInt8} (h : Rises text) (hzero : depth text = 0) : Falls text := by
  intro k
  have hsplit : depth text = depth (text.take k) + depth (text.drop k) := by
    rw [← depth_append, List.take_append_drop]
  have := h k
  omega

theorem rises_item {item : Item} (h : item ≠ .loneClose) : Rises item.bytes := by
  have hnil : Rises [] := fun k => by simp
  cases item with
  | byte b => exact hnil.cons (Int.le_of_eq (weight_plain b).symm)
  | loop body => exact (rises_code body).wrap
  | loneClose => exact absurd rfl h
  | loneOpen => exact hnil.cons (by decide)

theorem falls_item {item : Item} (h : item ≠ .loneOpen) : Falls item.bytes := by
  cases item with
  | byte b => exact (rises_item (by simp)).falls (by simp [Item.bytes, weight_plain])
  | loop body => exact (rises_item (by simp)).falls (by simp [Item.bytes])
  | loneClose => intro k; cases k <;> simp [Item.bytes]
  | loneOpen => exact absurd rfl h

theorem rises_of_not_mem {items : List Item} (h : Item.loneClose ∉ items) : Rises (bytes items) := by
  induction items with
  | nil => intro k; simp
  | cons item items ih =>
    rw [List.mem_cons, not_or] at h
    exact (rises_item (Ne.symm h.1)).append (ih h.2)

theorem falls_of_not_mem {items : List Item} (h : Item.loneOpen ∉ items) : Falls (bytes items) := by
  induction items with
  | nil => intro k; simp
  | cons item items ih =>
    rw [List.mem_cons, not_or] at h
    exact (falls_item (Ne.symm h.1)).append (ih h.2)

/-! ## Partners in an outline -/

section Partners

variable {source : Array UInt8} {front back : List UInt8}

theorem getElem?_of_append {b : UInt8} {i : Nat} (h : source.toList = front ++ b :: back)
    (hi : front.length = i) : source[i]? = some b := by
  rw [← hi, ← Array.getElem?_toList, h, List.getElem?_append_right (Nat.le_refl _), Nat.sub_self]
  rfl

/-- The two brackets of a loop are partners. -/
theorem partners_loop {body : Code} {i : Nat}
    (h : source.toList = front ++ opening :: (body.bytes ++ closing :: back))
    (hi : front.length = i) : Partners source i (i + (body.bytes.length + 1)) := by
  refine ⟨⟨getElem?_of_append h hi, by omega, fun j hij hj => ?_⟩, ?_⟩
  · obtain ⟨k, rfl⟩ := Nat.exists_eq_add_of_lt hij
    rw [← hi, Nat.add_assoc, depthBetween_back h, List.take_succ_cons, depth_cons, weight_opening,
      List.take_append_of_le_length (by omega)]
    have := rises_code body k
    omega
  · rw [← hi, Nat.add_assoc, depthBetween_back h, List.take_succ_cons, depth_cons, weight_opening,
      List.take_length_add_append]
    simp

/-- No bracket closes an opening one behind which the depth never falls below zero. -/
theorem not_partners_loneOpen (h : source.toList = front ++ opening :: back) (hback : Rises back)
    (j : Nat) : ¬ Partners source front.length j := by
  rintro ⟨⟨-, hij, -⟩, hzero⟩
  obtain ⟨k, rfl⟩ := Nat.exists_eq_add_of_lt hij
  rw [show front.length + k + 1 + 1 = front.length + (k + 1 + 1) by omega, depthBetween_back h,
    List.take_succ_cons, depth_cons, weight_opening] at hzero
  have := hback (k + 1)
  omega

/-- No bracket opens a closing one towards which the depth never rises above zero. -/
theorem not_partners_loneClose (h : source.toList = front ++ closing :: back) (hfront : Falls front)
    (i : Nat) : ¬ Partners source i front.length := by
  intro hp
  have hpos := hp.1.depth_pos
  rw [depthBetween_front h] at hpos
  have := hfront i
  omega

/-- No bracket closes a lone opening one. -/
theorem Ordered.not_partners_loneOpen {before after : List Item}
    (hord : Ordered (before ++ .loneOpen :: after))
    (h : source.toList = bytes before ++ opening :: bytes after) (j : Nat) :
    ¬ Partners source (bytes before).length j := by
  have hafter : Item.loneClose ∉ after := fun hmem =>
    (List.pairwise_cons.1 (List.pairwise_append.1 hord).2.1).1 _ hmem rfl rfl
  exact Outline.not_partners_loneOpen h (rises_of_not_mem hafter) j

/-- No bracket opens a lone closing one. -/
theorem Ordered.not_partners_loneClose {before after : List Item}
    (hord : Ordered (before ++ .loneClose :: after))
    (h : source.toList = bytes before ++ closing :: bytes after) (i : Nat) :
    ¬ Partners source i (bytes before).length := by
  have hbefore : Item.loneOpen ∉ before := fun hmem =>
    (List.pairwise_append.1 hord).2.2 _ hmem _ List.mem_cons_self rfl rfl
  exact Outline.not_partners_loneClose h (falls_of_not_mem hbefore) i

end Partners

end TapeDebugger.Outline
