-- SUMMARY: The command: reading files, printing, and showing the viewer.
import TapeDebugger.Command.Outcome
import TapeDebugger.Viewer

/-!
# The command

Everything that is decided is decided elsewhere; here files are read and text is printed. The viewer
is shown on a terminal that passes on whole lines: the characters of a line are its keys, and an
empty line is the enter key.
-/

namespace TapeDebugger.Command

/-- The system's words for the error codes that reading a file may give. -/
def systemText? : Nat → Option String
  | 1 => some "Operation not permitted"
  | 2 => some "No such file or directory"
  | 5 => some "Input/output error"
  | 13 => some "Permission denied"
  | 20 => some "Not a directory"
  | 21 => some "Is a directory"
  | 36 => some "File name too long"
  | 40 => some "Too many levels of symbolic links"
  | _ => none

/-- The reason behind an error code, which may be given as a negative number. -/
def reasonOfCode (code : UInt32) (details : String) : String :=
  let code := if code < 0x80000000 then code.toNat else (0 - code).toNat
  s!"{(systemText? code).getD details} (os error {code})"

/-- Why the system refused a file. -/
def systemReason : IO.Error → String
  | .noFileOrDirectory _ code details => reasonOfCode code details
  | .inappropriateType _ code details => reasonOfCode code details
  | .permissionDenied _ code details => reasonOfCode code details
  | .invalidArgument _ code details => reasonOfCode code details
  | .resourceExhausted _ code details => reasonOfCode code details
  | .otherError code details => reasonOfCode code details
  | other => toString other

def readSource (path : String) : IO (Except String (Array UInt8)) := do
  try
    let contents ← IO.FS.readBinFile path
    return .ok contents.data
  catch reason =>
    return .error (systemReason reason)

def Exit.perform (e : Exit) : IO UInt32 := do
  IO.eprint e.report
  let stdout ← IO.getStdout
  stdout.write ⟨e.output⟩
  stdout.flush
  return e.code.toUInt32

/-! ## The viewer -/

/-- The keys of a typed line. -/
def keysOfLine (line : String) : List Key :=
  match line.toList.filter (· ≠ '\n') with
  | [] => [.enter]
  | chars => chars.map .char

/-- Draw, play, and take one line of keys, until the viewer is left or the lines end. -/
partial def browse (v : Viewer) : IO Unit := do
  let (v, screen) := v.render 80 24
  for row in screen do
    IO.println (Text.toString row)
  if v.quit then
    return ()
  let v := v.advance
  let line ← (← IO.getStdin).getLine
  if line.isEmpty then
    return ()
  browse ((keysOfLine line).foldl Viewer.press v)

def perform (arguments : List String) : IO UInt32 :=
  match parse arguments with
  | .misuse => return misuseCode.toUInt32
  | .version => Exit.perform { code := 0, output := versionText.toUTF8.data }
  | .run options => do
    match options.execute (← readSource options.source) with
    | .exit e | .crash e => e.perform
    | .view report recording =>
      IO.eprint report
      browse { recording }
      return 0

end TapeDebugger.Command

def main (arguments : List String) : IO UInt32 := TapeDebugger.Command.perform arguments
