-- SUMMARY: The lines of a source are found by counting newlines, and every line is a part of the source.
import TapeDebugger.Program.Line

/-!
# Lines of a source

The table of lines grows strictly, so a position is on the last line that does not begin after it, and
that line is found by counting the newlines before the position (`line_locate`), the column by counting
the bytes since the last of them (`column_locate`). A line begins no later than it stops, and stops within
the source (`lineStarts_le_lineStop`, `lineStop_le_size`).

A line is drawn without its newline, though a position may be on that newline. So the byte at a position is
found in its line at its column with this one exception (`getElem?_lineBytes`).
-/

namespace TapeDebugger

variable {source : Array UInt8} {bytes : List UInt8} {i j k q next start position : Nat} {place : Place}

-- ---------------------------------------------------------------------------
-- Sorted tables
-- ---------------------------------------------------------------------------

/-- The entries of a table in order are in the order of their indices. -/
theorem rel_of_index_lt {table : List Nat} {r : Nat → Nat → Prop} (hsorted : table.Pairwise r)
    (hij : i < j) (hi : table[i]? = some q) (hj : table[j]? = some next) : r q next := by
  obtain ⟨hi', rfl⟩ := List.getElem?_eq_some_iff.1 hi
  obtain ⟨hj', rfl⟩ := List.getElem?_eq_some_iff.1 hj
  exact List.pairwise_iff_getElem.1 hsorted i j hi' hj' hij

/-- In a table that grows strictly, the entries up to a position are its first ones. -/
theorem le_iff_lt_countP {table : List Nat} (hsorted : table.Pairwise (· < ·))
    (hentry : table[i]? = some q) : q ≤ position ↔ i < table.countP (· ≤ position) := by
  induction table generalizing i with
  | nil => simp at hentry
  | cons first rest ih =>
    obtain ⟨hfirst, hrest⟩ := List.pairwise_cons.1 hsorted
    by_cases hle : first ≤ position
    · rw [List.countP_cons_of_pos (by simpa using hle)]
      cases i with
      | zero =>
        obtain rfl : first = q := by simpa using hentry
        simp [hle]
      | succ i => rw [ih hrest (by simpa using hentry), Nat.add_lt_add_iff_right]
    · have hnone : rest.countP (· ≤ position) = 0 := by
        refine List.countP_eq_zero.2 fun later hmem => ?_
        have := hfirst later hmem
        simp only [decide_eq_true_eq]
        omega
      have hq : first ≤ q := by
        rcases List.mem_cons.1 (List.mem_of_getElem? hentry) with rfl | hmem
        · exact Nat.le_refl q
        · exact Nat.le_of_lt (hfirst q hmem)
      rw [List.countP_cons_of_neg (by simpa using hle), hnone]
      omega

-- ---------------------------------------------------------------------------
-- The table of lines
-- ---------------------------------------------------------------------------

/-- The lines that begin after the newlines of some bytes, the first of which is at a position. -/
def startsAfter (bytes : List UInt8) (position : Nat) : List Nat :=
  (bytes.zipIdx position).filterMap fun (byte, position) =>
    if byte = newline then some (position + 1) else none

theorem lineStarts_eq (source : Array UInt8) : lineStarts source = 0 :: startsAfter source.toList 0 :=
  rfl

theorem startsAfter_newline (bytes : List UInt8) (position : Nat) :
    startsAfter (newline :: bytes) position = (position + 1) :: startsAfter bytes (position + 1) := by
  simp [startsAfter, List.zipIdx_cons]

theorem startsAfter_of_ne {byte : UInt8} (h : byte ≠ newline) (bytes : List UInt8) (position : Nat) :
    startsAfter (byte :: bytes) position = startsAfter bytes (position + 1) := by
  simp [startsAfter, List.zipIdx_cons, h]

theorem bounds_of_mem_startsAfter (hmem : q ∈ startsAfter bytes position) :
    position < q ∧ q ≤ position + bytes.length := by
  induction bytes generalizing position with
  | nil => simp [startsAfter] at hmem
  | cons byte rest ih =>
    rw [List.length_cons]
    by_cases hbyte : byte = newline
    · rw [hbyte, startsAfter_newline] at hmem
      rcases List.mem_cons.1 hmem with rfl | hmem
      · omega
      · have := ih hmem
        omega
    · rw [startsAfter_of_ne hbyte] at hmem
      have := ih hmem
      omega

theorem mem_startsAfter_iff :
    q ∈ startsAfter bytes position ↔ ∃ i, bytes[i]? = some newline ∧ q = position + i + 1 := by
  induction bytes generalizing position with
  | nil => simp [startsAfter]
  | cons byte rest ih =>
    have hrest : q ∈ startsAfter rest (position + 1) ↔
        ∃ i, (byte :: rest)[i + 1]? = some newline ∧ q = position + (i + 1) + 1 := by
      rw [ih]
      refine exists_congr fun i => ?_
      rw [List.getElem?_cons_succ, Nat.add_right_comm position 1 i, Nat.add_assoc position i 1]
    by_cases hbyte : byte = newline
    · rw [hbyte, startsAfter_newline, List.mem_cons, hrest, hbyte]
      constructor
      · rintro (rfl | ⟨i, hi, rfl⟩)
        · exact ⟨0, rfl, rfl⟩
        · exact ⟨i + 1, hi, rfl⟩
      · rintro ⟨i, hi, rfl⟩
        cases i with
        | zero => exact .inl rfl
        | succ i => exact .inr ⟨i, hi, rfl⟩
    · rw [startsAfter_of_ne hbyte, hrest]
      constructor
      · rintro ⟨i, hi, rfl⟩
        exact ⟨i + 1, hi, rfl⟩
      · rintro ⟨i, hi, rfl⟩
        cases i with
        | zero => exact absurd (Option.some.inj hi) hbyte
        | succ i => exact ⟨i, hi, rfl⟩

theorem pairwise_startsAfter (bytes : List UInt8) (position : Nat) :
    (startsAfter bytes position).Pairwise (· < ·) := by
  induction bytes generalizing position with
  | nil => simp [startsAfter]
  | cons byte rest ih =>
    by_cases hbyte : byte = newline
    · rw [hbyte, startsAfter_newline]
      exact List.pairwise_cons.2 ⟨fun q hmem => (bounds_of_mem_startsAfter hmem).1, ih _⟩
    · rw [startsAfter_of_ne hbyte]
      exact ih _

/-- One line begins after each newline before a position. -/
theorem countP_startsAfter (bytes : List UInt8) (first : Nat) :
    (startsAfter bytes first).countP (· ≤ position) = (bytes.take (position - first)).count newline := by
  induction bytes generalizing first with
  | nil => simp [startsAfter]
  | cons byte rest ih =>
    by_cases hbefore : first < position
    · have htake : position - first = position - (first + 1) + 1 := by omega
      rw [htake, List.take_succ_cons]
      by_cases hbyte : byte = newline
      · rw [hbyte, startsAfter_newline, List.countP_cons_of_pos (by simp only [decide_eq_true_eq]; omega),
          ih, List.count_cons_self]
      · rw [startsAfter_of_ne hbyte, ih, List.count_cons_of_ne hbyte]
    · have hlater : ∀ q ∈ startsAfter (byte :: rest) first, ¬ decide (q ≤ position) = true := by
        intro q hmem
        have := (bounds_of_mem_startsAfter hmem).1
        simp only [decide_eq_true_eq]
        omega
      rw [List.countP_eq_zero.2 hlater, Nat.sub_eq_zero_of_le (Nat.le_of_not_lt hbefore)]
      rfl

theorem pairwise_lineStarts (source : Array UInt8) : (lineStarts source).Pairwise (· < ·) := by
  rw [lineStarts_eq]
  refine List.pairwise_cons.2 ⟨fun q hmem => ?_, pairwise_startsAfter _ _⟩
  exact (bounds_of_mem_startsAfter hmem).1

/-- The lines of a source begin one after the other. -/
theorem lineStarts_lt_of_lt (hij : i < j) (hi : (lineStarts source)[i]? = some q)
    (hj : (lineStarts source)[j]? = some next) : q < next :=
  rel_of_index_lt (pairwise_lineStarts source) hij hi hj

/-- A line begins at the start of the source and behind every newline. -/
theorem mem_lineStarts_iff :
    q ∈ lineStarts source ↔ q = 0 ∨ ∃ i, source[i]? = some newline ∧ q = i + 1 := by
  rw [lineStarts_eq, List.mem_cons, mem_startsAfter_iff]
  simp only [Array.getElem?_toList, Nat.zero_add]

theorem le_size_of_mem_lineStarts (hmem : q ∈ lineStarts source) : q ≤ source.size := by
  rw [lineStarts_eq] at hmem
  rcases List.mem_cons.1 hmem with rfl | hmem
  · exact Nat.zero_le _
  · have := (bounds_of_mem_startsAfter hmem).2
    rwa [Nat.zero_add, Array.length_toList] at this

theorem countP_lineStarts (source : Array UInt8) (position : Nat) :
    (lineStarts source).countP (· ≤ position) = (source.toList.take position).count newline + 1 := by
  rw [lineStarts_eq, List.countP_cons_of_pos (by simp), countP_startsAfter, Nat.sub_zero]

/-- A source has one line more than it has newlines. -/
theorem length_lineStarts (source : Array UInt8) :
    (lineStarts source).length = source.toList.count newline + 1 := by
  have hall : (lineStarts source).countP (· ≤ source.size) = (lineStarts source).length :=
    List.countP_eq_length.2 fun q hmem => by simpa using le_size_of_mem_lineStarts hmem
  rw [← hall, countP_lineStarts, ← Array.length_toList, List.take_length]

theorem count_newline_le_size (bytes : Array UInt8) : bytes.toList.count newline ≤ bytes.size :=
  Nat.le_trans List.count_le_length (Nat.le_of_eq Array.length_toList)

/-- A source has at most one line more than it has bytes. -/
theorem length_lineStarts_le (source : Array UInt8) : (lineStarts source).length ≤ source.size + 1 :=
  length_lineStarts source ▸ Nat.succ_le_succ (count_newline_le_size source)

-- ---------------------------------------------------------------------------
-- Places
-- ---------------------------------------------------------------------------

/-- The line of a position is the number of newlines before it. -/
theorem line_locate (source : Array UInt8) (position : Nat) :
    (Place.locate (lineStarts source) position).line = (source.toList.take position).count newline := by
  rw [Place.locate, countP_lineStarts, Nat.add_sub_cancel]

theorem line_locate_lt_length (source : Array UInt8) (position : Nat) :
    (Place.locate (lineStarts source) position).line < (lineStarts source).length := by
  have := (List.take_sublist position source.toList).count_le newline
  rw [line_locate, length_lineStarts]
  omega

/-- The lines that begin no later than a position are those up to the line of the position. -/
theorem lineStarts_le_iff (hstart : (lineStarts source)[i]? = some q) :
    q ≤ position ↔ i ≤ (Place.locate (lineStarts source) position).line := by
  rw [le_iff_lt_countP (pairwise_lineStarts source) hstart, countP_lineStarts, line_locate,
    Nat.lt_succ_iff]

/-- A position is so many bytes behind the start of its line as its column says. -/
theorem exists_start_add_column (hplace : Place.locate (lineStarts source) position = place) :
    ∃ start, (lineStarts source)[place.line]? = some start ∧ start + place.column = position := by
  subst hplace
  have hline := line_locate_lt_length source position
  obtain ⟨start, hstart⟩ : ∃ start, (lineStarts source)[(Place.locate (lineStarts source) position).line]? =
      some start := ⟨_, List.getElem?_eq_getElem hline⟩
  have hbefore : start ≤ position := (lineStarts_le_iff hstart).2 (Nat.le_refl _)
  have hcolumn : (Place.locate (lineStarts source) position).column = position -
      (lineStarts source).getD (Place.locate (lineStarts source) position).line 0 := rfl
  rw [List.getD_eq_getElem?_getD, hstart, Option.getD_some] at hcolumn
  exact ⟨start, hstart, hcolumn ▸ Nat.add_sub_of_le hbefore⟩

/-- A place is that of one position only. -/
theorem eq_of_locate_eq {position' : Nat} (heq : Place.locate (lineStarts source) position =
    Place.locate (lineStarts source) position') : position = position' := by
  obtain ⟨start, hstart, hposition⟩ := exists_start_add_column heq
  obtain ⟨start', hstart', hposition'⟩ := exists_start_add_column
    (rfl : Place.locate (lineStarts source) position' = _)
  obtain rfl := Option.some.inj (hstart.symm.trans hstart')
  exact hposition.symm.trans hposition'

/-- A position is before the line that follows its own. -/
theorem lt_next_line (hplace : Place.locate (lineStarts source) position = place)
    (hnext : (lineStarts source)[place.line + 1]? = some next) : position < next := by
  subst hplace
  refine Nat.lt_of_not_le fun hle => ?_
  exact Nat.not_succ_le_self _ ((lineStarts_le_iff hnext).1 hle)

/-- Behind a newline begins a line, below that of the newline and no lower than that of any position
behind it. -/
theorem exists_line_behind_newline (h : source[i]? = some newline) :
    ∃ k, (lineStarts source)[k]? = some (i + 1) ∧
      ∀ position, i < position ↔ k ≤ (Place.locate (lineStarts source) position).line := by
  have hmem : i + 1 ∈ lineStarts source := mem_lineStarts_iff.2 (.inr ⟨i, h, rfl⟩)
  obtain ⟨k, hk⟩ := List.mem_iff_getElem?.1 hmem
  exact ⟨k, hk, fun position => lineStarts_le_iff hk⟩

/-- No newline stands between the start of the line of a position and the position. -/
theorem not_newline_of_line (hplace : Place.locate (lineStarts source) position = place)
    (hstart : (lineStarts source)[place.line]? = some start) (hi : start ≤ i) (hlt : i < position) :
    source[i]? ≠ some newline := by
  subst hplace
  intro hnewline
  obtain ⟨k, hk, hbehind⟩ := exists_line_behind_newline hnewline
  rcases Nat.eq_or_lt_of_le ((hbehind position).1 hlt) with rfl | hlt'
  · have := Option.some.inj (hstart.symm.trans hk)
    omega
  · have := lineStarts_lt_of_lt hlt' hk hstart
    omega

/-- The column of a position is the number of bytes since the last newline before it. -/
theorem column_locate (h : position ≤ source.size) :
    (Place.locate (lineStarts source) position).column =
      ((source.toList.take position).reverse.takeWhile (· ≠ newline)).length := by
  generalize hplace : Place.locate (lineStarts source) position = place
  obtain ⟨start, hstart, hposition⟩ := exists_start_add_column hplace
  have hfront : ((source.toList.take start).reverse.takeWhile (· ≠ newline)) = [] := by
    rcases mem_lineStarts_iff.1 (List.mem_of_getElem? hstart) with rfl | ⟨i, hi, rfl⟩
    · rfl
    · rw [← Array.getElem?_toList] at hi
      rw [List.take_add_one, hi, List.reverse_append]
      rfl
  have hline : ∀ byte ∈ ((source.toList.drop start).take place.column).reverse,
      decide (byte ≠ newline) = true := by
    intro byte hmem
    obtain ⟨i, hi⟩ := List.mem_iff_getElem?.1 (List.mem_reverse.1 hmem)
    rw [List.getElem?_take] at hi
    split at hi
    · rename_i hlt
      rw [List.getElem?_drop, Array.getElem?_toList] at hi
      have hne := not_newline_of_line hplace hstart (Nat.le_add_right start i) (by omega)
      rw [hi] at hne
      simpa using hne
    · cases hi
  rw [← hposition, List.take_add, List.reverse_append, List.takeWhile_append_of_pos hline, hfront,
    List.append_nil, List.length_reverse, List.length_take, List.length_drop, Array.length_toList]
  omega

-- ---------------------------------------------------------------------------
-- The bytes of a line
-- ---------------------------------------------------------------------------

theorem lineStarts_le_lineStop (hstart : (lineStarts source)[i]? = some q) :
    q ≤ lineStop source (lineStarts source) i := by
  rw [lineStop]
  cases hnext : (lineStarts source)[i + 1]? with
  | some next => exact Nat.le_pred_of_lt (lineStarts_lt_of_lt (Nat.lt_succ_self i) hstart hnext)
  | none => exact le_size_of_mem_lineStarts (List.mem_of_getElem? hstart)

theorem lineStop_le_size (source : Array UInt8) (i : Nat) :
    lineStop source (lineStarts source) i ≤ source.size := by
  rw [lineStop]
  cases hnext : (lineStarts source)[i + 1]? with
  | some next =>
    exact Nat.le_trans (Nat.sub_le _ _) (le_size_of_mem_lineStarts (List.mem_of_getElem? hnext))
  | none => exact Nat.le_refl _

/-- A position is on the bytes of its line, unless it is on the newline behind them. -/
theorem lt_lineStop_iff (hplace : Place.locate (lineStarts source) position = place)
    (h : position < source.size) :
    position < lineStop source (lineStarts source) place.line ↔ source[position]? ≠ some newline := by
  subst hplace
  cases hnext : (lineStarts source)[(Place.locate (lineStarts source) position).line + 1]? with
  | none =>
    simp only [lineStop, hnext]
    refine ⟨fun _ hnewline => ?_, fun _ => h⟩
    obtain ⟨k, hk, hbehind⟩ := exists_line_behind_newline hnewline
    have hlength := List.getElem?_eq_none_iff.1 hnext
    have hlast := (List.getElem?_eq_some_iff.1 hk).1
    have := (hbehind position).2 (by omega)
    omega
  | some next =>
    simp only [lineStop, hnext]
    have hbelow : ¬ next ≤ position := Nat.not_le_of_lt (lt_next_line rfl hnext)
    constructor
    · intro hlt hnewline
      obtain ⟨k, hk, hbehind⟩ := exists_line_behind_newline hnewline
      have hlater := mt (hbehind position).2 (Nat.lt_irrefl position)
      rcases Nat.eq_or_lt_of_le (Nat.succ_le_of_lt (Nat.lt_of_not_le hlater)) with rfl | hlt'
      · have := Option.some.inj (hnext.symm.trans hk)
        omega
      · have := lineStarts_lt_of_lt hlt' hnext hk
        omega
    · intro hne
      rcases mem_lineStarts_iff.1 (List.mem_of_getElem? hnext) with rfl | ⟨i, hi, rfl⟩
      · exact absurd (Nat.zero_le position) hbelow
      · have hne' : position ≠ i := fun heq => hne (heq ▸ hi)
        omega

/-- The byte at a position is found in its line at its column, unless it is the newline behind the line. -/
theorem getElem?_lineBytes (hplace : Place.locate (lineStarts source) position = place)
    (h : position < source.size) :
    (lineBytes source (lineStarts source) place.line)[place.column]? =
      if source[position]? = some newline then none else source[position]? := by
  obtain ⟨start, hstart, hposition⟩ := exists_start_add_column hplace
  have hstop := lineStop_le_size source place.line
  have hiff := lt_lineStop_iff hplace h
  rw [lineBytes, List.getD_eq_getElem?_getD, hstart, Option.getD_some, Array.getElem?_toList,
    Array.getElem?_extract, hposition, Nat.min_eq_left hstop]
  by_cases hnewline : source[position]? = some newline
  · have hbehind : ¬ position < lineStop source (lineStarts source) place.line :=
      fun hlt => hiff.1 hlt hnewline
    rw [if_pos hnewline, if_neg (by omega)]
  · have hwithin := hiff.2 hnewline
    rw [if_neg hnewline, if_pos (by omega)]

end TapeDebugger
