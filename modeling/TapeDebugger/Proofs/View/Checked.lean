-- SUMMARY: Panes that look at every access, every slice and every sum before they make it, and when they go through.
import TapeDebugger.Recording
import TapeDebugger.View.StatusBar
import TapeDebugger.Proofs.Machine.Checked
import TapeDebugger.Proofs.Program.Lines
import TapeDebugger.Proofs.View.Windows

/-!
# Checked panes

The panes cut lines out of the source and rows out of the tape, and add and subtract offsets on the way.
Their definitions give some value also where a bound does not hold: a difference stays at zero, a slice
stops at the end, and a sum has no end. The checked panes give nothing there. They subtract only what is
not larger, take only slices that lie within, and add only up to the last word.

In the order in which the panes look at their bounds, hardly anything is asked of the offsets. A difference
of two totals is taken only when the second one is smaller, and the end of the dump's window is computed
only for an offset that is no larger than the row of the head.
-/

namespace TapeDebugger

-- ---------------------------------------------------------------------------
-- Checked arithmetic and slices
-- ---------------------------------------------------------------------------

namespace Word

/-- The difference of two counts, if the second is not larger. -/
def sub? (a b : Nat) : Option Nat := if b ≤ a then some (a - b) else none

/-- The product of two counts, if it is a word. -/
def mul? (a b : Nat) : Option Nat := if a * b ≤ last then some (a * b) else none

variable {a b : Nat}

theorem sub?_of_le (h : b ≤ a) : sub? a b = some (a - b) := if_pos h

theorem mul?_of_le (h : a * b ≤ last) : mul? a b = some (a * b) := if_pos h

end Word

/-- The part of some bytes between two bounds, if these are in order and within the bytes. -/
def slice? (bytes : Array UInt8) (start stop : Nat) : Option (Array UInt8) :=
  if start ≤ stop ∧ stop ≤ bytes.size then some (bytes.extract start stop) else none

theorem slice?_of_within {bytes : Array UInt8} {start stop : Nat} (horder : start ≤ stop)
    (hstop : stop ≤ bytes.size) : slice? bytes start stop = some (bytes.extract start stop) :=
  if_pos ⟨horder, hstop⟩

/-- What goes through for every item goes through for a list. -/
theorem mapM_eq_some {α β : Type} {items : List α} {f? : α → Option β} {f : α → β}
    (h : ∀ item ∈ items, f? item = some (f item)) : items.mapM f? = some (items.map f) := by
  induction items with
  | nil => rfl
  | cons item items ih =>
    obtain ⟨hitem, hitems⟩ := List.forall_mem_cons.1 h
    rw [List.mapM_cons, hitem, ih hitems]
    rfl

-- ---------------------------------------------------------------------------
-- Windows
-- ---------------------------------------------------------------------------

/-- Keep an offset within the rows; only when they do not all fit is there a difference to take. -/
def Window.clamp? (total visible offset : Nat) : Option Nat :=
  if visible < total then (Word.sub? total visible).map (min offset) else some 0

theorem Window.clamp?_eq (total visible offset : Nat) :
    clamp? total visible offset = some (clamp total visible offset) := by
  rw [clamp?, clamp, lastOffset]
  split
  · rename_i hmore
    rw [Word.sub?_of_le (Nat.le_of_lt hmore)]
    rfl
  · rename_i hfits
    rw [Nat.sub_eq_zero_of_le (Nat.le_of_not_lt hfits), Nat.min_zero]

-- ---------------------------------------------------------------------------
-- Lines
-- ---------------------------------------------------------------------------

/-- The positions at which lines begin, as far as they are words. -/
def lineStarts? (source : Array UInt8) : Option (List Nat) := do
  let newlines := source.toList.zipIdx.filter fun (byte, _) => byte = newline
  return 0 :: (← newlines.mapM fun (_, position) => Word.next? position)

/-- The place of a position, if its line is in the table and does not begin after it. -/
def Place.locate? (starts : List Nat) (position : Nat) : Option Place := do
  let line := starts.countP (· ≤ position) - 1
  let start ← starts[line]?
  return { line, column := ← Word.sub? position start }

/-- Where a line ends, if there is a position before the next one. -/
def lineStop? (source : Array UInt8) (starts : List Nat) (line : Nat) : Option Nat := do
  match starts[← Word.next? line]? with
  | some next => Word.sub? next 1
  | none => return source.size

/-- The bytes of a line, if it is in the table and lies within the source. -/
def lineBytes? (source : Array UInt8) (starts : List Nat) (line : Nat) : Option (List UInt8) := do
  let start ← starts[line]?
  let bytes ← slice? source start (← lineStop? source starts line)
  return bytes.toList

variable {source : Array UInt8}

theorem lineStarts?_eq (hsource : source.size ≤ Word.last) :
    lineStarts? source = some (lineStarts source) := by
  have hnext : ∀ entry ∈ source.toList.zipIdx.filter fun (byte, _) => byte = newline,
      Word.next? entry.2 = some (entry.2 + 1) := by
    intro entry hmem
    have hposition := (List.mem_zipIdx (List.mem_filter.1 hmem).1).2.1
    rw [Nat.zero_add, Array.length_toList] at hposition
    exact Word.next?_of_lt (Nat.lt_of_lt_of_le hposition hsource)
  simp only [lineStarts?, lineStarts, mapM_eq_some hnext, ← List.filterMap_eq_map,
    List.filterMap_filter, Function.comp_apply, decide_eq_true_eq]
  rfl

theorem locate?_eq (source : Array UInt8) (position : Nat) :
    Place.locate? (lineStarts source) position =
      some (.locate (lineStarts source) position) := by
  have hline := line_locate_lt_length source position
  have hstart := List.getElem?_eq_getElem hline
  have hbefore := (lineStarts_le_iff hstart).2 (Nat.le_refl _)
  simp only [Place.locate] at hline hstart hbefore
  simp only [Place.locate?, Place.locate, hstart, Option.bind_eq_bind, Option.bind_some,
    Word.sub?_of_le hbefore, List.getD_eq_getElem?_getD, Option.getD_some]
  rfl

theorem lineStop?_eq {line : Nat} (hsource : source.size < Word.last)
    (hline : line < (lineStarts source).length) :
    lineStop? source (lineStarts source) line = some (lineStop source (lineStarts source) line) := by
  have hlength := length_lineStarts_le source
  simp only [lineStop?, lineStop, Word.next?_of_lt (show line < Word.last by omega),
    Option.bind_eq_bind, Option.bind_some]
  cases hnext : (lineStarts source)[line + 1]? with
  | none => rfl
  | some next =>
    -- the next line begins after this one, so not at zero
    have hstart := List.getElem?_eq_getElem hline
    have hlater := lineStarts_lt_of_lt (Nat.lt_succ_self line) hstart hnext
    exact Word.sub?_of_le (Nat.lt_of_le_of_lt (Nat.zero_le _) hlater)

theorem lineBytes?_eq {line : Nat} (hsource : source.size < Word.last)
    (hline : line < (lineStarts source).length) :
    lineBytes? source (lineStarts source) line =
      some (lineBytes source (lineStarts source) line) := by
  have hstart := List.getElem?_eq_getElem hline
  have hslice := slice?_of_within (lineStarts_le_lineStop hstart) (lineStop_le_size source line)
  simp only [lineBytes?, lineBytes, hstart, lineStop?_eq hsource hline, Option.bind_eq_bind,
    Option.bind_some, hslice, List.getD_eq_getElem?_getD, Option.getD_some]
  rfl

-- ---------------------------------------------------------------------------
-- Listing
-- ---------------------------------------------------------------------------

namespace Listing

def Scroll.settle? (s : Scroll) (current total visible : Nat) : Option Scroll := do
  let row := s.targetRow visible
  return { offset := ← Window.clamp? total visible (current - row), row := some row }

theorem Scroll.settle?_eq (s : Scroll) (current total visible : Nat) :
    s.settle? current total visible = some (s.settle current total visible) := by
  simp only [settle?, settle, Window.clamp?_eq]
  rfl

namespace Content

def place? (c : Content) : Option Place := do
  Place.locate? (← lineStarts? c.source) (min c.ip c.source.size)

/-- One line of the listing. Its number is the index of the next line, which finding the bytes of the line
has already looked at. -/
def line? (c : Content) (starts : List Nat) (place : Place) (line : Nat) : Option Text := do
  let bytes ← lineBytes? c.source starts line
  if line = place.line then
    if c.past then
      return gutter line true ++ currentBytes c.zeroClears none bytes ++ endMark
    else
      return gutter line true ++ currentBytes c.zeroClears (some place.column) bytes
  else
    return gutter line false ++ plainBytes c.zeroClears bytes

def window? (c : Content) (visible offset : Nat) : Option (List Text) := do
  let starts ← lineStarts? c.source
  let place ← c.place?
  (Window.slice (List.range starts.length) visible offset).mapM (c.line? starts place)

def settle? (c : Content) (height : Nat) (s : Scroll) : Option Scroll := do
  let starts ← lineStarts? c.source
  s.settle? (← c.place?).line starts.length (Window.rows height)

def draw? (c : Content) (area : Area) (focused : Bool) (offset : Nat) : Option Drawing := do
  return [.frame area (Palette.border focused) (Text.ofString " Source Code "),
    .lines area.inner (← c.window? (Window.rows area.height) offset)]

variable {c : Content}

theorem place?_eq (hsource : c.source.size ≤ Word.last) : c.place? = some c.place := by
  simp only [place?, lineStarts?_eq hsource, Option.bind_eq_bind, Option.bind_some, locate?_eq]
  rfl

theorem line?_eq (hsource : c.source.size < Word.last) {line : Nat}
    (hline : line < c.starts.length) :
    c.line? c.starts c.place line = some (c.line c.starts c.place line) := by
  have hbytes : lineBytes? c.source c.starts line = some (lineBytes c.source c.starts line) :=
    lineBytes?_eq hsource hline
  simp only [line?, Content.line, hbytes, Option.bind_eq_bind, Option.bind_some]
  split
  · split <;> rfl
  · rfl

theorem window?_eq (hsource : c.source.size < Word.last) (visible offset : Nat) :
    c.window? visible offset = some (c.window visible offset) := by
  have hle := Nat.le_of_lt hsource
  simp only [window?, window, lineStarts?_eq hle, place?_eq hle, Option.bind_eq_bind,
    Option.bind_some]
  refine mapM_eq_some fun line hmem => line?_eq hsource ?_
  exact List.mem_range.1 (List.mem_of_mem_drop (List.mem_of_mem_take hmem))

/-- Settling the listing goes through, whatever its scroll state. -/
theorem settle?_eq (hsource : c.source.size ≤ Word.last) (height : Nat) (s : Scroll) :
    c.settle? height s = some (c.settle height s) := by
  simp only [settle?, settle, lineStarts?_eq hsource, place?_eq hsource, Option.bind_eq_bind,
    Option.bind_some, Scroll.settle?_eq]
  rfl

theorem draw?_eq (hsource : c.source.size < Word.last) (area : Area) (focused : Bool)
    (offset : Nat) : c.draw? area focused offset = some (c.draw area focused offset) := by
  simp only [draw?, draw, window?_eq hsource]
  rfl

end Content

end Listing

-- ---------------------------------------------------------------------------
-- Dump
-- ---------------------------------------------------------------------------

namespace Dump

/-- The nearest offset at which the window shows a row. Where the window ends is asked only when it does
not begin below the row. -/
def reveal? (row visible offset : Nat) : Option Nat := do
  if row < offset then
    return row
  else if (← Word.add? offset visible) ≤ row then
    Word.sub? (← Word.next? row) visible
  else
    return offset

def Scroll.settle? (s : Scroll) (row total visible : Nat) : Option Scroll := do
  let offset ← if s.follow then reveal? row visible s.offset else some s.offset
  return { s with offset := Window.clamp total visible offset }

/-- The cells of a row, if it is within the tape. -/
def rowCells? (tape : Tape) (row : Nat) : Option (List (Bool × UInt8)) := do
  let start ← Word.mul? row cellsPerRow
  let cells ← slice? tape.cells start (min (← Word.add? start cellsPerRow) tape.size)
  cells.toList.zipIdx.mapM fun (value, i) => do return ((← Word.add? start i) == tape.head, value)

def row? (tape : Tape) (row : Nat) : Option Text := do
  let cells ← rowCells? tape row
  return Text.ofString (hexAddress (← Word.mul? row cellsPerRow)) { fg := some Palette.muted }
    ++ Text.ofString " │ "
    ++ cells.flatMap (fun (pointed, value) => number pointed value)
    ++ (List.replicate (cellsPerRow - cells.length) (Text.ofString "   ")).flatten
    ++ Text.ofString "│ "
    ++ cells.map fun (pointed, value) => character pointed value

def window? (tape : Tape) (visible offset : Nat) : Option (List Text) :=
  (Window.slice (List.range (rowCount tape.size)) visible offset).mapM (row? tape)

def settle? (tape : Tape) (height : Nat) (s : Scroll) : Option Scroll :=
  s.settle? (tape.head / cellsPerRow) (rowCount tape.size) (Window.rows height)

def draw? (tape : Tape) (area : Area) (focused : Bool) (offset : Nat) : Option Drawing := do
  return [.frame area (Palette.border focused) (Text.ofString (title tape)),
    .lines area.inner (← window? tape (Window.rows area.height) offset)]

variable {tape : Tape} {index visible : Nat}

/-- Whatever the offset is, no sum is larger than the row and the height of the window. -/
theorem reveal?_eq (hword : index + visible < Word.last) (offset : Nat) :
    reveal? index visible offset = some (reveal index visible offset) := by
  rw [reveal?, reveal]
  split
  · rfl
  · rename_i habove
    -- the window begins no lower than the row, so this sum is not taken for larger offsets
    simp only [Word.add?_of_le (show offset + visible ≤ Word.last by omega), Option.bind_eq_bind,
      Option.bind_some]
    split
    · rename_i hbelow
      simp only [Word.next?_of_lt (show index < Word.last by omega), Option.bind_some]
      exact Word.sub?_of_le (by omega)
    · rfl

theorem Scroll.settle?_eq (hword : index + visible < Word.last) (s : Scroll) (total : Nat) :
    s.settle? index total visible = some (s.settle index total visible) := by
  rw [settle?, settle]
  split
  · rw [reveal?_eq hword]
    rfl
  · rfl

theorem rowCells?_eq (htape : tape.size + cellsPerRow ≤ Word.last)
    (hindex : index < rowCount tape.size) : rowCells? tape index = some (rowCells tape index) := by
  have hstart := lt_rowCount_iff.1 hindex
  -- a short last row is cut at the end of the tape, where a slice that asks for more ends as well
  have hcells : slice? tape.cells (index * cellsPerRow)
      (min (index * cellsPerRow + cellsPerRow) tape.size) =
      some (tape.cells.extract (index * cellsPerRow) (index * cellsPerRow + cellsPerRow)) := by
    rw [slice?_of_within (Nat.le_min.2 ⟨Nat.le_add_right _ _, Nat.le_of_lt hstart⟩)
      (Nat.min_le_right _ _), Array.extract_eq_extract_right.2]
    simp only [Tape.size]
    omega
  simp only [rowCells?, Word.mul?_of_le (show index * cellsPerRow ≤ Word.last by omega),
    Word.add?_of_le (show index * cellsPerRow + cellsPerRow ≤ Word.last by omega),
    Option.bind_eq_bind, Option.bind_some, hcells, rowCells, List.mapIdx_eq_zipIdx_map]
  refine mapM_eq_some fun entry hmem => ?_
  have hi := (List.mem_zipIdx hmem).2.1
  simp only [Nat.zero_add, Array.length_toList, Array.size_extract] at hi
  have hsum : index * cellsPerRow + entry.2 ≤ Word.last := by
    simp only [Tape.size] at htape hstart
    omega
  rw [Word.add?_of_le hsum]
  rfl

theorem row?_eq (htape : tape.size + cellsPerRow ≤ Word.last) (hindex : index < rowCount tape.size) :
    row? tape index = some (row tape index) := by
  have hstart := lt_rowCount_iff.1 hindex
  simp only [row?, row, rowCells?_eq htape hindex, Option.bind_eq_bind, Option.bind_some,
    Word.mul?_of_le (show index * cellsPerRow ≤ Word.last by omega)]
  rfl

theorem window?_eq (htape : tape.size + cellsPerRow ≤ Word.last) (visible offset : Nat) :
    window? tape visible offset = some (window tape visible offset) :=
  mapM_eq_some fun _ hmem =>
    row?_eq htape (List.mem_range.1 (List.mem_of_mem_drop (List.mem_of_mem_take hmem)))

/-- Settling the dump goes through, whatever its offset and whether it follows. -/
theorem settle?_eq {height : Nat}
    (hword : tape.head / cellsPerRow + Window.rows height < Word.last) (s : Scroll) :
    settle? tape height s = some (settle tape height s) :=
  s.settle?_eq hword _

theorem draw?_eq (htape : tape.size + cellsPerRow ≤ Word.last) (area : Area) (focused : Bool)
    (offset : Nat) : draw? tape area focused offset = some (draw tape area focused offset) := by
  simp only [draw?, draw, window?_eq htape]
  rfl

end Dump

-- ---------------------------------------------------------------------------
-- Log
-- ---------------------------------------------------------------------------

/-- The output up to the frame on show, if the live state has as much. -/
def Recording.output? (r : Recording) : Option (Array UInt8) :=
  slice? r.live.spool.bytes 0 (min r.shown.written r.live.spool.bytes.size)

theorem Recording.output?_eq (r : Recording) : r.output? = some r.output := by
  rw [output?, slice?_of_within (Nat.zero_le _) (Nat.min_le_right _ _), output, Array.take_eq_extract,
    Array.extract_eq_extract_right.2]
  omega

def Log.settle? (output : Array UInt8) (height offset : Nat) : Option Nat :=
  match (lines output).length with
  | 0 => some offset
  | total => Window.clamp? total (Window.rows height) offset

theorem Log.settle?_eq (output : Array UInt8) (height offset : Nat) :
    settle? output height offset = some (settle output height offset) := by
  rw [settle?, settle]
  cases (lines output).length with
  | zero => rfl
  | succ => exact Window.clamp?_eq _ _ _

-- ---------------------------------------------------------------------------
-- Status bar
-- ---------------------------------------------------------------------------

namespace StatusBar

/-- The step on show, if it is a word. -/
def step? (b : StatusBar) : Option String := do
  let total := match b.total with
    | some total => toString total
    | none => "?"
  return s!" Step {← Word.next? b.position}/{total} "

def left? (b : StatusBar) : Option Text := do
  return Text.ofString (← b.step?) (Palette.badge Palette.accent)
    ++ Text.ofString " | " separator
    ++ Text.ofString s!"{b.executed} ops" separator
    ++ Text.ofString " | " separator
    ++ Text.ofString s!" {b.message} " label

def draw? (b : StatusBar) (area : Area) : Option Drawing := do
  let (leftHalf, rightHalf) := area.splitColumn (Area.share 50 area.width)
  return [.fill area ground] ++ Drawing.flushLeft leftHalf (← b.left?)
    ++ Drawing.flushRight rightHalf b.right

variable {b : StatusBar}

theorem step?_eq (h : b.position < Word.last) : b.step? = some b.step := by
  simp only [step?, step, Word.next?_of_lt h, Word.wrap_eq_self (Nat.succ_le_of_lt h)]
  rfl

theorem draw?_eq (h : b.position < Word.last) (area : Area) : b.draw? area = some (b.draw area) := by
  simp only [draw?, left?, step?_eq h]
  rfl

end StatusBar

end TapeDebugger
