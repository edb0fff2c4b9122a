-- SUMMARY: The pairing of opening and closing brackets of a source, by one scan with a stack.
import TapeDebugger.Fault

/-!
# Pairing

One scan from left to right keeps the opening brackets that still wait for a partner on a stack.
Every bracket ends in exactly one slot: a pair, a closing bracket alone, or an opening bracket
alone. Slots are recorded in the order in which their closing brackets are met; opening brackets
without a partner come last, innermost first.

The scan is refused as soon as the slots that the brackets read so far will need exceed the
capacity.
-/

namespace TapeDebugger

namespace Bracket

/-- The byte `[`. -/
def opening : UInt8 := 0x5b

/-- The byte `]`. -/
def closing : UInt8 := 0x5d

end Bracket

namespace Pairing

/-- A pair of brackets by their source positions; one of the two may be missing. -/
structure Slot where
  opener : Option Nat
  closer : Option Nat
  deriving Repr, DecidableEq

/-! ## Scanning -/

/-- A scan under way. -/
structure Scan where
  /-- The slots recorded. -/
  slots : Array Slot := #[]
  /-- The opening brackets that wait for a partner, innermost first. -/
  waiting : List Nat := []
  /-- The slots that the brackets read so far will need: every bracket but those that close a waiting
  one needs a slot of its own. -/
  needed : Nat := 0
  deriving Repr, DecidableEq

namespace Scan

/-- Read the byte at `position`. -/
def read (s : Scan) (position : Nat) (byte : UInt8) : Scan :=
  if byte = Bracket.opening then
    { s with waiting := position :: s.waiting, needed := s.needed + 1 }
  else if byte = Bracket.closing then
    match s.waiting with
    | [] => { s with slots := s.slots.push ⟨none, some position⟩, needed := s.needed + 1 }
    | opener :: outer =>
      { s with slots := s.slots.push ⟨some opener, some position⟩, waiting := outer }
  else
    s

/-- Read the bytes from `position` on, as long as the slots needed are within `capacity`. -/
def readAll (capacity : Nat) : List UInt8 → Nat → Scan → Except Fault Scan
  | [], _, s => .ok s
  | byte :: rest, position, s =>
    let next := s.read position byte
    if capacity < next.needed then .error (.tooManyBrackets next.needed capacity)
    else readAll capacity rest (position + 1) next

/-- All slots: those recorded, and one for each bracket that waits in vain. -/
def finish (s : Scan) : Array Slot :=
  s.slots ++ (s.waiting.map fun opener => ⟨some opener, none⟩).toArray

/-- Reading keeps count: a slot is needed for each one recorded and for each bracket that waits. -/
theorem needed_read {s : Scan} (h : s.needed = s.slots.size + s.waiting.length) (position : Nat)
    (byte : UInt8) :
    (s.read position byte).needed =
      (s.read position byte).slots.size + (s.read position byte).waiting.length := by
  simp only [read]
  split
  · simp only [List.length_cons]; omega
  · split
    · split
      · simp_all
      · simp_all; omega
    · exact h

end Scan

end Pairing

/-! ## The table -/

/-- The brackets of a source, slot by slot and by position. -/
structure Pairing where
  /-- All slots in recording order. -/
  slots : Array Pairing.Slot
  /-- The closing bracket by the position of its partner. -/
  closers : Array (Option Nat)
  /-- The opening bracket by the position of its partner. -/
  openers : Array (Option Nat)
  deriving Repr, DecidableEq

namespace Pairing

/-- No brackets, in a source of `size` bytes. -/
def empty (size : Nat) : Pairing :=
  { slots := #[], closers := Array.replicate size none, openers := Array.replicate size none }

/-- Record a slot; a full pair can be looked up from either side. -/
def insert (p : Pairing) (slot : Slot) : Pairing :=
  match slot with
  | ⟨some opener, some closer⟩ =>
    { slots := p.slots.push slot
      closers := p.closers.setIfInBounds opener (some closer)
      openers := p.openers.setIfInBounds closer (some opener) }
  | _ => { p with slots := p.slots.push slot }

def ofSlots (size : Nat) (slots : Array Slot) : Pairing :=
  slots.foldl insert (empty size)

/-- Pair the brackets of a source, within the capacity. -/
def ofSource (capacity : Nat) (source : Array UInt8) : Except Fault Pairing :=
  (Scan.readAll capacity source.toList 0 {}).map fun scan => ofSlots source.size scan.finish

/-- The partner of the opening bracket at a position, if one stands there and it has one. -/
def closerOf? (p : Pairing) (position : Nat) : Option Nat := p.closers.getD position none

/-- The partner of the closing bracket at a position, if one stands there and it has one. -/
def openerOf? (p : Pairing) (position : Nat) : Option Nat := p.openers.getD position none

end Pairing

end TapeDebugger
