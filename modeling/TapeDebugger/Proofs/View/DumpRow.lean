-- SUMMARY: The rows of the dump as text: which columns a cell takes, and how the cells are read back from the digits.
import TapeDebugger.Proofs.Screen.Cells
import TapeDebugger.View.Dump

/-!
# Rows of the dump

A row is an address, the cells as numbers, a gap that fills up a short row, and the cells as characters. Every
number takes three columns and every character takes one, so only the width of the address has to be known to
find a cell on the screen. That width is not fixed: from the address 10000 on it has more than four digits.

What is drawn is read back without a look at the tape: the digits behind the first bar, in pairs, up to the first
character that is none (`readRow_row`).
-/

namespace TapeDebugger

/-- In a text of pieces of one length, an index is an index of a piece and one within it. -/
theorem getElem?_flatMap_of_length {α β : Type} {f : α → List β} {length j : Nat}
    (hlength : ∀ item, (f item).length = length) (hj : j < length) (items : List α) (i : Nat) :
    (items.flatMap f)[length * i + j]? = items[i]?.bind fun item => (f item)[j]? := by
  induction items generalizing i with
  | nil => rfl
  | cons item items ih =>
    rw [List.flatMap_cons]
    cases i with
    | zero =>
      have hfirst : length * 0 + j < (f item).length := by simpa [hlength item] using hj
      simpa using List.getElem?_append_left hfirst
    | succ i =>
      have hstart : (f item).length ≤ length * (i + 1) + j := by
        rw [hlength item, Nat.mul_succ]
        omega
      have hwithin : length * (i + 1) + j - (f item).length = length * i + j := by
        rw [hlength item, Nat.mul_succ]
        omega
      rw [List.getElem?_append_right hstart, hwithin, ih, List.getElem?_cons_succ]

namespace Dump

-- ---------------------------------------------------------------------------
-- Hexadecimal digits
-- ---------------------------------------------------------------------------

/-- The value of a hexadecimal digit. -/
def hexDigit? (char : Char) : Option Nat := "0123456789abcdef".toList.idxOf? char

/-- The byte that two hexadecimal digits stand for. -/
def byteOf? (high low : Char) : Option UInt8 := do
  return UInt8.ofNat (16 * (← hexDigit? high) + (← hexDigit? low))

variable {char : Char} {n : Nat} {value : UInt8}

theorem hexDigit?_digitChar (h : n < 16) : hexDigit? (Nat.digitChar n) = some n := by
  have hall : ∀ n < 16, hexDigit? (Nat.digitChar n) = some n := by decide
  exact hall n h

theorem high_lt (value : UInt8) : value.toNat / 16 < 16 := Nat.div_lt_of_lt_mul value.toNat_lt

theorem low_lt (value : UInt8) : value.toNat % 16 < 16 := Nat.mod_lt _ (by decide)

/-- The two digits that a byte is written with stand for it. -/
theorem byteOf?_digits (value : UInt8) :
    byteOf? (Nat.digitChar (value.toNat / 16)) (Nat.digitChar (value.toNat % 16)) = some value := by
  simp only [byteOf?, hexDigit?_digitChar (high_lt value), hexDigit?_digitChar (low_lt value),
    Option.bind_eq_bind, Option.bind_some, Nat.div_add_mod, UInt8.ofNat_toNat, Option.pure_def]

/-- All digits of an address are hexadecimal ones. -/
theorem hexDigit?_of_mem_toDigits (h : char ∈ Nat.toDigits 16 n) : hexDigit? char ≠ none := by
  induction n using Nat.strongRecOn with
  | ind n ih =>
    obtain hlt | hle := Nat.lt_or_ge n 16
    · rw [Nat.toDigits_of_lt_base hlt, List.mem_singleton] at h
      rw [h, hexDigit?_digitChar hlt]
      exact Option.some_ne_none n
    · rw [Nat.toDigits_of_base_le (by decide) hle, List.mem_append, List.mem_singleton] at h
      obtain hmem | rfl := h
      · exact ih (n / 16) (Nat.div_lt_self (by omega) (by decide)) hmem
      · rw [hexDigit?_digitChar (Nat.mod_lt n (by decide))]
        exact Option.some_ne_none _

theorem hexDigit?_of_mem_hexAddress (h : char ∈ (hexAddress n).toList) : hexDigit? char ≠ none := by
  rw [hexAddress, String.toList_ofList, padLeft, List.mem_append] at h
  obtain hfiller | hdigit := h
  · rw [List.eq_of_mem_replicate hfiller]
    decide
  · exact hexDigit?_of_mem_toDigits hdigit

/-- The bytes at the front of a text, each of two digits and a blank. -/
def readBytes : List Char → List UInt8
  | high :: low :: gap :: rest =>
    match byteOf? high low with
    | some value => if gap = ' ' then value :: readBytes rest else []
    | none => []
  | _ => []

/-- The bytes of a row, which begin behind its first bar. -/
def readRow (chars : List Char) : List UInt8 := readBytes ((chars.dropWhile (· ≠ '│')).drop 2)

/-- How a byte is written as a number. -/
def digits (value : UInt8) : List Char :=
  [Nat.digitChar (value.toNat / 16), Nat.digitChar (value.toNat % 16), ' ']

theorem readBytes_flatMap_digits (values : List UInt8) (rest : List Char) :
    readBytes (values.flatMap digits ++ rest) = values ++ readBytes rest := by
  induction values with
  | nil => rfl
  | cons value values ih => simp [digits, readBytes, byteOf?_digits, ← ih]

/-- Where there is no digit, no more bytes are read. -/
theorem readBytes_of_not_digit (h : hexDigit? char = none) (rest : List Char) :
    readBytes (char :: rest) = [] := by
  unfold readBytes
  split
  · rename_i hcons
    obtain ⟨rfl, -⟩ := List.cons.inj hcons
    simp [byteOf?, h]
  · rfl

/-- A row without a bar has no bytes. -/
theorem readRow_of_blank (count : Nat) : readRow (List.replicate count ' ') = [] := by
  have hblank : (List.replicate count ' ').dropWhile (· ≠ '│') = [] := by simp
  rw [readRow, hblank]
  rfl

-- ---------------------------------------------------------------------------
-- Parts of a row
-- ---------------------------------------------------------------------------

/-- The width of the address of a row. -/
def addressWidth (row : Nat) : Nat := max 4 (Nat.toDigits 16 (row * cellsPerRow)).length

/-- What is in front of the cells of a row. -/
def lead (row : Nat) : Text :=
  Text.ofString (hexAddress (row * cellsPerRow)) { fg := some Palette.muted } ++ Text.ofString " │ "

/-- What is between the numbers and the characters in a row of so many cells. -/
def gap (cells : Nat) : Text :=
  (List.replicate (cellsPerRow - cells) (Text.ofString "   ")).flatten ++ Text.ofString "│ "

def numbers (cells : List (Bool × UInt8)) : Text := cells.flatMap fun cell => number cell.1 cell.2

def characters (cells : List (Bool × UInt8)) : Text := cells.map fun cell => character cell.1 cell.2

variable {cells : List (Bool × UInt8)} {index i column : Nat} {g : Glyph}

theorem row_eq (tape : Tape) (index : Nat) :
    row tape index =
      lead index ++ (numbers (rowCells tape index) ++
        (gap (rowCells tape index).length ++ characters (rowCells tape index))) := by
  simp only [row, lead, gap, List.append_assoc]
  rfl

theorem lead_eq (index : Nat) :
    lead index =
      (hexAddress (index * cellsPerRow)).toList.map
          (fun char => { char, style := { fg := some Palette.muted } }) ++
        [Glyph.blank, { char := '│' }, Glyph.blank] := by
  have hplain : '\n' ∉ (hexAddress (index * cellsPerRow)).toList := fun hmem =>
    hexDigit?_of_mem_hexAddress hmem (by decide)
  rw [lead, Text.ofString, Text.ofChars_eq_map hplain]
  rfl

theorem length_lead (index : Nat) : (lead index).length = addressWidth index + 3 := by
  rw [lead_eq, hexAddress, String.toList_ofList]
  simp only [List.length_append, List.length_map, length_padLeft, addressWidth]
  rfl

example : addressWidth 8191 = 4 ∧ addressWidth 8192 = 5 := by decide

theorem gap_eq (count : Nat) :
    gap count =
      List.replicate ((cellsPerRow - count) * 3) Glyph.blank ++ [{ char := '│' }, Glyph.blank] := by
  have hblanks : Text.ofString "   " = List.replicate 3 Glyph.blank := rfl
  rw [gap, hblanks, List.flatten_replicate_replicate]
  rfl

theorem length_gap (count : Nat) : (gap count).length = (cellsPerRow - count) * 3 + 2 := by
  rw [gap_eq, List.length_append, List.length_replicate]
  rfl

/-- The lead of a row sets no background, and has one character in each cell. -/
theorem plain_of_mem_lead (h : g ∈ lead index) : g.style.bg = none ∧ g.tail = [] := by
  rw [lead_eq, List.mem_append] at h
  obtain hdigit | hbar := h
  · obtain ⟨char, -, rfl⟩ := List.mem_map.1 hdigit
    exact ⟨rfl, rfl⟩
  · revert g
    decide

theorem plain_of_mem_gap {count : Nat} (h : g ∈ gap count) : g.style.bg = none ∧ g.tail = [] := by
  rw [gap_eq, List.mem_append] at h
  obtain hblank | hbar := h
  · rw [List.eq_of_mem_replicate hblank]
    exact ⟨rfl, rfl⟩
  · revert g
    decide

theorem number_eq (pointed : Bool) (value : UInt8) :
    number pointed value =
      [{ char := Nat.digitChar (value.toNat / 16), style := numberStyle pointed value },
        { char := Nat.digitChar (value.toNat % 16), style := numberStyle pointed value },
        Glyph.blank] := by
  have hdigit {n : Nat} (h : n < 16) : '\n' ≠ Nat.digitChar n := fun heq => by
    have hnone : hexDigit? '\n' = none := by decide
    rw [heq, hexDigit?_digitChar h] at hnone
    cases hnone
  have hplain : '\n' ∉ [Nat.digitChar (value.toNat / 16), Nat.digitChar (value.toNat % 16)] := by
    simp [hdigit (high_lt value), hdigit (low_lt value)]
  rw [number, Text.ofString, hexByte, String.toList_ofList, Text.ofChars_eq_map hplain]
  rfl

theorem length_number (pointed : Bool) (value : UInt8) : (number pointed value).length = 3 := by
  rw [number_eq]
  rfl

theorem length_numbers (cells : List (Bool × UInt8)) : (numbers cells).length = 3 * cells.length := by
  simp only [numbers, List.length_flatMap, length_number, List.map_const', List.sum_replicate_nat,
    Nat.mul_comm 3]

theorem getElem?_numbers {part : Nat} (h : part < 3) (cells : List (Bool × UInt8)) (i : Nat) :
    (numbers cells)[3 * i + part]? = cells[i]?.bind fun cell => (number cell.1 cell.2)[part]? := by
  have hlength (cell : Bool × UInt8) : (number cell.1 cell.2).length = 3 := length_number _ _
  exact getElem?_flatMap_of_length hlength h cells i

theorem bg_numberStyle (pointed : Bool) (value : UInt8) :
    (numberStyle pointed value).bg = if pointed then some Palette.pointer else none := by
  cases pointed with
  | true => rfl
  | false => by_cases h : value = 0 <;> simp [numberStyle, h]

theorem bg_charStyle (pointed : Bool) :
    (charStyle pointed).bg = if pointed then some Palette.pointer else none := by
  cases pointed <;> rfl

/-- Of the numbers, the two digits of the cell under the head are marked. -/
theorem background?_numbers_iff :
    Text.background? (numbers cells) column = some Palette.pointer ↔
      column % 3 < 2 ∧ ∃ value, cells[column / 3]? = some (true, value) := by
  have hpart : column % 3 < 3 := Nat.mod_lt column (by decide)
  have hglyph := getElem?_numbers hpart cells (column / 3)
  rw [Nat.div_add_mod] at hglyph
  rw [Text.background?, hglyph]
  rcases cells[column / 3]? with _ | ⟨pointed, value⟩
  · simp
  · have hparts : column % 3 = 0 ∨ column % 3 = 1 ∨ column % 3 = 2 := by omega
    rw [Option.bind_some, number_eq]
    rcases hparts with h | h | h <;> simp [h, bg_numberStyle, Glyph.blank]

/-- Of the characters, the one of the cell under the head is marked. -/
theorem background?_characters_iff :
    Text.background? (characters cells) column = some Palette.pointer ↔
      ∃ value, cells[column]? = some (true, value) := by
  rw [Text.background?, characters, List.getElem?_map]
  rcases cells[column]? with _ | ⟨pointed, value⟩
  · simp
  · simp [character, bg_charStyle]

-- ---------------------------------------------------------------------------
-- Rows
-- ---------------------------------------------------------------------------

/-- The column of the first digit of a cell, behind the address and the first bar. -/
def numberColumn (cell : Nat) : Nat := addressWidth (cell / cellsPerRow) + 3 + 3 * (cell % cellsPerRow)

/-- The column of the character of a cell, behind eight numbers, whether the row has them or not, and two bars. -/
def characterColumn (cell : Nat) : Nat := addressWidth (cell / cellsPerRow) + 29 + cell % cellsPerRow

/-- The width of a full row. -/
def rowWidth (row : Nat) : Nat := addressWidth row + 37

variable {tape : Tape} {cell : Nat}

theorem rowCells_eq (tape : Tape) (index : Nat) :
    rowCells tape index =
      ((tape.cells.toList.drop (index * cellsPerRow)).take cellsPerRow).mapIdx fun i value =>
        (index * cellsPerRow + i == tape.head, value) := by
  rw [rowCells, Array.toList_extract, List.extract_eq_take_drop, Nat.add_sub_cancel_left]

theorem getElem?_rowCells (tape : Tape) (index i : Nat) :
    (rowCells tape index)[i]? =
      if i < cellsPerRow then
        tape.cells[index * cellsPerRow + i]?.map fun value => (index * cellsPerRow + i == tape.head, value)
      else none := by
  rw [rowCells_eq, List.getElem?_mapIdx, List.getElem?_take]
  split
  · rw [List.getElem?_drop, Array.getElem?_toList]
  · rfl

/-- The values of a row are the next cells of the tape. -/
theorem map_snd_rowCells (tape : Tape) (index : Nat) :
    (rowCells tape index).map Prod.snd =
      (tape.cells.toList.drop (index * cellsPerRow)).take cellsPerRow := by
  refine List.ext_getElem? fun i => ?_
  rw [rowCells_eq, List.getElem?_map, List.getElem?_mapIdx, Option.map_map]
  exact Option.map_id'

theorem length_rowCells_le (tape : Tape) (index : Nat) : (rowCells tape index).length ≤ cellsPerRow := by
  rw [rowCells_eq, List.length_mapIdx, List.length_take]
  exact Nat.min_le_left _ _

theorem exists_marked_rowCells_iff :
    (∃ value, (rowCells tape index)[i]? = some (true, value)) ↔
      i < cellsPerRow ∧ tape.head < tape.size ∧ index * cellsPerRow + i = tape.head := by
  rw [getElem?_rowCells]
  split
  · rename_i hi
    rw [and_iff_right hi]
    constructor
    · rintro ⟨value, hmarked⟩
      obtain ⟨_, hvalue, hcell⟩ := Option.map_eq_some_iff.1 hmarked
      obtain ⟨hhead, -⟩ := Prod.mk.inj hcell
      rw [beq_iff_eq] at hhead
      exact ⟨hhead ▸ (Array.getElem?_eq_some_iff.1 hvalue).1, hhead⟩
    · rintro ⟨hlt, hhead⟩
      rw [hhead, beq_self_eq_true]
      exact ⟨tape.cells[tape.head], congrArg _ (Array.getElem?_eq_getElem hlt)⟩
  · rename_i hi
    exact iff_of_false (fun ⟨_, h⟩ => nomatch h) fun h => hi h.1

/-- The row of a cell has it, with whether the head is on it. -/
theorem getElem?_rowCells_mod (h : tape.cells[cell]? = some value) :
    (rowCells tape (cell / cellsPerRow))[cell % cellsPerRow]? = some (cell == tape.head, value) := by
  have hpart : cell % cellsPerRow < cellsPerRow := Nat.mod_lt _ (by decide)
  rw [getElem?_rowCells, if_pos hpart, Nat.div_add_mod', h, Option.map_some]

theorem mod_lt_length_rowCells (h : cell < tape.size) :
    cell % cellsPerRow < (rowCells tape (cell / cellsPerRow)).length :=
  (List.getElem?_eq_some_iff.1 (getElem?_rowCells_mod (Array.getElem?_eq_getElem h))).1

/-- A row is marked where the cell under the head is, at both of its digits and at its character. -/
theorem background?_row_iff (tape : Tape) (index column : Nat) :
    Text.background? (row tape index) column = some Palette.pointer ↔
      tape.head < tape.size ∧ tape.head / cellsPerRow = index ∧
        (column = numberColumn tape.head ∨ column = numberColumn tape.head + 1 ∨
          column = characterColumn tape.head) := by
  have hlead : ∀ g ∈ lead index, g.style.bg ≠ some Palette.pointer := fun g hmem => by
    simp [(plain_of_mem_lead hmem).1]
  have hgap : ∀ g ∈ gap (rowCells tape index).length, g.style.bg ≠ some Palette.pointer :=
    fun g hmem => by simp [(plain_of_mem_gap hmem).1]
  have hle := length_rowCells_le tape index
  rw [row_eq, Text.background?_append_iff hlead, Text.background?_append, length_lead, length_numbers]
  -- a column is one of the numbers, or is behind them and then has to be one of the characters
  split
  · rename_i hnumber
    rw [background?_numbers_iff, exists_marked_rowCells_iff]
    simp only [numberColumn, characterColumn, cellsPerRow] at hle hnumber ⊢
    constructor
    · rintro ⟨hbehind, hdigit, hwithin, hsize, hhead⟩
      have hindex : tape.head / 8 = index := by omega
      rw [hindex]
      exact ⟨hsize, rfl, by omega⟩
    · rintro ⟨hsize, rfl, hcolumn⟩
      exact ⟨by omega, by omega, by omega, hsize, by omega⟩
  · rename_i hnumber
    rw [Text.background?_append_iff hgap, background?_characters_iff, exists_marked_rowCells_iff,
      length_gap]
    simp only [numberColumn, characterColumn, cellsPerRow] at hle hnumber ⊢
    constructor
    · rintro ⟨hbehind, hbar, hwithin, hsize, hhead⟩
      have hindex : tape.head / 8 = index := by omega
      rw [hindex]
      exact ⟨hsize, rfl, by omega⟩
    · rintro ⟨hsize, rfl, hcolumn⟩
      have hlength := mod_lt_length_rowCells hsize
      simp only [cellsPerRow] at hlength
      exact ⟨by omega, by omega, by omega, hsize, by omega⟩

/-- The digits of a cell, and the blank behind them. -/
theorem getElem?_row_number {part : Nat} (hpart : part < 3) (h : tape.cells[cell]? = some value) :
    (row tape (cell / cellsPerRow))[numberColumn cell + part]? =
      (number (cell == tape.head) value)[part]? := by
  have hlength := mod_lt_length_rowCells (Array.getElem?_eq_some_iff.1 h).1
  have hnumbers := getElem?_numbers hpart (rowCells tape (cell / cellsPerRow)) (cell % cellsPerRow)
  rw [getElem?_rowCells_mod h, Option.bind_some] at hnumbers
  rw [row_eq, List.getElem?_append_right (by rw [length_lead, numberColumn]; omega),
    List.getElem?_append_left (by rw [length_lead, length_numbers, numberColumn]; omega), length_lead,
    numberColumn, Nat.add_assoc, Nat.add_sub_cancel_left, hnumbers]

/-- A short row is filled up, so that the characters begin where they do in a full one. -/
theorem length_front (tape : Tape) (index : Nat) :
    (lead index ++ (numbers (rowCells tape index) ++ gap (rowCells tape index).length)).length =
      addressWidth index + 29 := by
  have hle := length_rowCells_le tape index
  simp only [List.length_append, length_lead, length_numbers, length_gap, cellsPerRow] at hle ⊢
  omega

theorem row_eq_front_append (tape : Tape) (index : Nat) :
    row tape index =
      (lead index ++ (numbers (rowCells tape index) ++ gap (rowCells tape index).length)) ++
        characters (rowCells tape index) := by
  simp only [row_eq, List.append_assoc]

theorem length_row_le (tape : Tape) (index : Nat) : (row tape index).length ≤ rowWidth index := by
  have hle := length_rowCells_le tape index
  rw [row_eq_front_append, List.length_append, length_front, characters, List.length_map]
  exact Nat.add_le_add_left hle _

theorem getElem?_row_character (h : tape.cells[cell]? = some value) :
    (row tape (cell / cellsPerRow))[characterColumn cell]? =
      some (character (cell == tape.head) value) := by
  rw [row_eq_front_append, List.getElem?_append_right (by rw [length_front, characterColumn]; omega),
    length_front, characterColumn, Nat.add_sub_cancel_left, characters, List.getElem?_map,
    getElem?_rowCells_mod h, Option.map_some]

/-- Every glyph of a row has a cell for itself. -/
theorem tail_of_mem_row (h : g ∈ row tape index) : g.tail = [] := by
  simp only [row_eq, List.mem_append] at h
  obtain hlead | hnumber | hgap | hcharacter := h
  · exact (plain_of_mem_lead hlead).2
  · obtain ⟨cell, -, hglyph⟩ := List.mem_flatMap.1 hnumber
    simp only [number_eq, List.mem_cons, List.not_mem_nil, or_false] at hglyph
    obtain rfl | rfl | rfl := hglyph <;> rfl
  · exact (plain_of_mem_gap hgap).2
  · obtain ⟨cell, -, rfl⟩ := List.mem_map.1 hcharacter
    rfl

/-- Behind its numbers, a row goes on with something other than a digit. -/
theorem exists_map_char_gap (count : Nat) :
    ∃ char rest, (gap count).map Glyph.char = char :: rest ∧ hexDigit? char = none := by
  rw [gap_eq, List.map_append, List.map_replicate]
  cases (cellsPerRow - count) * 3 with
  | zero => exact ⟨'│', [' '], rfl, by decide⟩
  | succ blanks => exact ⟨' ', _, rfl, by decide⟩

theorem map_char_numbers (cells : List (Bool × UInt8)) :
    (numbers cells).map Glyph.char = (cells.map Prod.snd).flatMap digits := by
  simp only [numbers, List.map_flatMap, List.flatMap_map, number_eq]
  rfl

/-- What is read off a row are its cells, whatever is behind it. -/
theorem readRow_row (tape : Tape) (index : Nat) (behind : List Char) :
    readRow ((row tape index).map Glyph.char ++ behind) = (rowCells tape index).map Prod.snd := by
  have haddress : ∀ char ∈ (hexAddress (index * cellsPerRow)).toList, decide (char ≠ '│') = true :=
    fun char hmem => decide_eq_true fun heq => hexDigit?_of_mem_hexAddress hmem (heq ▸ by decide)
  obtain ⟨char, rest, hgap, hdigit⟩ := exists_map_char_gap (rowCells tape index).length
  have hlead (back : List Char) :
      (((lead index).map Glyph.char ++ back).dropWhile (· ≠ '│')).drop 2 = back := by
    simp only [lead_eq, List.map_append, List.map_map, List.append_assoc, Function.comp_def, List.map_id']
    rw [List.dropWhile_append_of_pos haddress]
    rfl
  rw [row_eq, List.map_append, List.append_assoc, readRow, hlead, List.map_append, List.map_append,
    map_char_numbers, hgap]
  simp only [List.append_assoc, List.cons_append, readBytes_flatMap_digits,
    readBytes_of_not_digit hdigit, List.append_nil]

end Dump

end TapeDebugger
