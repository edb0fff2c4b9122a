-- SUMMARY: What the command does: what it prints, what it reports, and its exit code.
import TapeDebugger.Command.Options
import TapeDebugger.Program.Line
import TapeDebugger.Recording

/-!
# Outcomes

The output of a run goes to the standard output, followed by a newline; everything said about the
run is a report. A quiet command reports errors only. When the process gives up, the report is what has
been said by then, and there is no output.
-/

namespace TapeDebugger.Command

/-- What is left of a command when it is over. -/
structure Exit where
  code : Nat
  output : Array UInt8 := #[]
  report : String := ""
  deriving Repr, DecidableEq

inductive Outcome where
  | exit (e : Exit)
  /-- The viewer is to be opened on a recording, after the report. -/
  | view (report : String) (recording : Recording)
  /-- The process gives up. What its runtime says of that comes behind the report. -/
  | crash (e : Exit)

def versionText : String := "bftty 0.1.0\n"

/-- The exit code of a command line that makes no sense. -/
def misuseCode : Nat := 2

/-- The exit code of a process that gives up. -/
def crashCode : Nat := 101

namespace Options

/-- A line of the report, unless the command is quiet. -/
def note (o : Options) (line : String) : String := if o.quiet then "" else line ++ "\n"

def failure (report message : String) : Outcome :=
  .exit { code := 1, report := report ++ s!"Error: {message}\n" }

/-- What comes of a fault, after a report. -/
def stop (report : String) : Fault → Outcome
  | .crash _ => .crash { code := crashCode, report }
  | fault => failure report fault.message

/-- The input as bytes. -/
def inputBytes (o : Options) : Array UInt8 := o.input.toUTF8.data

/-- What is reported of a source that could be read. -/
def loadedNote (o : Options) (source : Array UInt8) : String :=
  o.note s!"Loaded {o.source} ({source.size} bytes, {o.inputBytes.size} bytes of input)"

/-- What is reported of a run: the brackets before it, and how it stopped. -/
def runNotes (o : Options) (p : Program) (r : Program.Result) : String :=
  o.note s!"Executing program ({p.pairing.slots.size} bracket pairs)..."
    ++ o.note s!"Execution stopped: {r.halt.message} after {r.executed} instructions."

/-- Carry out a command, given the bytes of the source or the reason why they cannot be read. -/
def execute (o : Options) (contents : Except String (Array UInt8)) : Outcome :=
  match contents with
  | .error reason => failure "" s!"cannot read '{o.source}': {reason}"
  | .ok source =>
    let loaded := o.loadedNote source
    match Program.load o.settings source o.inputBytes with
    | .error fault => stop loaded fault
    | .ok p =>
      if o.viewer then
        match Recording.start p p.start o.budget with
        | .error fault => stop loaded fault
        | .ok recording => .view loaded recording
      else
        let result := p.finish p.start
        .exit
          { code := 0, output := result.output.push newline, report := loaded ++ o.runNotes p result }

end Options

end TapeDebugger.Command
