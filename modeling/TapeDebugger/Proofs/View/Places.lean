-- SUMMARY: Positions and places of a source tell the same, whichever search finds the line of a position.
import TapeDebugger.Proofs.Program.Search
import TapeDebugger.Proofs.View.Checked

/-!
# Places of a source

The line of a position may be found by any search of the table of lines. The search comes to the line that
begins at the position, or to the one before which the position would be inserted, and then it is the line
before that (`search?_eq`). A source has a first line, so there always is one, and it begins no later than the
position: neither the access nor the difference fails.

Lines and columns are numbers of bytes in front of a position (`line_locate`, `column_locate`), and both
together lead back to it (`exists_start_add_column`, `eq_of_locate_eq`).
-/

namespace TapeDebugger

namespace Place

variable {search : List Nat → Nat → Finding}

/-- The place of a position by a search, if its line is in the table and does not begin after it. -/
def search? (search : List Nat → Nat → Finding) (starts : List Nat) (position : Nat) :
    Option Place := do
  let line := (search starts position).last
  let start ← starts[line]?
  return { line, column := ← Word.sub? position start }

/-- A search finds the place that counting finds. -/
theorem search?_eq (hsearch : Finding.Searches search) (source : Array UInt8) (position : Nat) :
    search? search (lineStarts source) position = some (locate (lineStarts source) position) := by
  have hsorted := pairwise_lineStarts source
  have hholds := hsearch (lineStarts source) position (hsorted.imp Nat.le_of_lt)
  have hline : (search (lineStarts source) position).last =
      (lineStarts source).countP (· ≤ position) - 1 := by
    rw [Finding.last_eq, hholds.count_eq hsorted]
  rw [search?, hline]
  exact locate?_eq source position

/-- The lines of a source begin at its start and behind its newlines, in order. Any search of their table
gives every position up to the end of the source a place: its line is the number of newlines before it, its
column the number of bytes since the last of them, or since the start of the source. The line is in the table
and begins no later than the position, which is so many bytes behind it as the column says and before the
next line. Different positions have different places. -/
theorem positions_round_trip (hsearch : Finding.Searches search) (source : Array UInt8) :
    ((lineStarts source).Pairwise (· < ·) ∧ (lineStarts source).head? = some 0 ∧
      (lineStarts source).length = source.toList.count newline + 1) ∧
    (∀ position, position ≤ source.size → ∃ place start,
      search? search (lineStarts source) position = some place ∧
      locate (lineStarts source) position = place ∧
      place.line = (source.toList.take position).count newline ∧
      place.column = ((source.toList.take position).reverse.takeWhile (· ≠ newline)).length ∧
      (lineStarts source)[place.line]? = some start ∧
      start ≤ position ∧ start + place.column = position ∧
      ∀ next, (lineStarts source)[place.line + 1]? = some next → position < next) ∧
    ∀ position position', position ≤ source.size → position' ≤ source.size →
      search? search (lineStarts source) position = search? search (lineStarts source) position' →
      position = position' := by
  refine ⟨⟨pairwise_lineStarts source, head_lineStarts source, length_lineStarts source⟩,
    fun position h => ?_, fun position position' _ _ heq => ?_⟩
  · obtain ⟨start, hstart, hposition⟩ := exists_start_add_column
      (rfl : locate (lineStarts source) position = _)
    refine ⟨_, start, search?_eq hsearch source position, rfl, line_locate source position,
      column_locate h, hstart, by omega, hposition, fun next hnext => lt_next_line rfl hnext⟩
  · rw [search?_eq hsearch, search?_eq hsearch] at heq
    exact eq_of_locate_eq (Option.some.inj heq)

/-- A source of four lines, the second one empty and the last one as well: a search by halves finds the
newline that ends the first line, the one on the empty line, and the end of the source behind the last one. -/
theorem positions_round_trip_of_bisect :
    let source : Array UInt8 := #[0x2b, newline, newline, 0x2d, newline]
    let found (position : Nat) := search? Finding.bisect (lineStarts source) position
    Finding.Searches Finding.bisect ∧ lineStarts source = [0, 2, 3, 5] ∧
    found 1 = some ⟨0, 1⟩ ∧ found 2 = some ⟨1, 0⟩ ∧ found 5 = some ⟨3, 0⟩ ∧
    (∀ position, position ≤ 5 → found position = found 4 → position = 4) := by
  intro source found
  obtain ⟨-, hplaces, hdifferent⟩ := positions_round_trip Finding.bisect_searches source
  have hfound : ∀ position place, position ≤ 5 → locate (lineStarts source) position = place →
      found position = some place := by
    intro position place h hplace
    obtain ⟨_, _, hsearch, rfl, _⟩ := hplaces position h
    exact hplace ▸ hsearch
  exact ⟨Finding.bisect_searches, by decide, hfound 1 _ (by decide) (by decide),
    hfound 2 _ (by decide) (by decide), hfound 5 _ (by decide) (by decide),
    fun position h heq => hdifferent position 4 h (by decide) heq⟩

end Place

end TapeDebugger
