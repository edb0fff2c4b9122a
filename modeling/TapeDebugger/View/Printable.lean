-- SUMMARY: Bytes as single characters and numbers as digits, as the panes show them.

/-!
# Printable bytes

Every byte is shown as one character: itself when it is visible in ASCII or a space, and a point
otherwise.
-/

namespace TapeDebugger

/-- The character that a byte is shown as. -/
def printable (byte : UInt8) : Char :=
  if 0x20 ≤ byte ∧ byte ≤ 0x7e then Char.ofNat byte.toNat else '.'

/-- Whether a byte is an ASCII control character. -/
def isControl (byte : UInt8) : Bool := byte < 0x20 || byte == 0x7f

/-- Digits right-aligned in a field; longer ones are kept whole. -/
def padLeft (width : Nat) (filler : Char) (digits : List Char) : List Char :=
  List.replicate (width - digits.length) filler ++ digits

theorem length_padLeft (width : Nat) (filler : Char) (digits : List Char) :
    (padLeft width filler digits).length = max width digits.length := by
  rw [padLeft, List.length_append, List.length_replicate]
  omega

/-- A number in at least four hexadecimal digits. -/
def hexAddress (n : Nat) : String := String.ofList (padLeft 4 '0' (Nat.toDigits 16 n))

/-- A byte in two hexadecimal digits. -/
def hexByte (byte : UInt8) : String :=
  String.ofList [Nat.digitChar (byte.toNat / 16), Nat.digitChar (byte.toNat % 16)]

end TapeDebugger
