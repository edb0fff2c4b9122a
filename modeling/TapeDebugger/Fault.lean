-- SUMMARY: The causes for which a program, a recording or a move through it is refused, and their wording.

/-!
# Faults

One constructor per cause. `Fault.message` is the only place where the wording is decided; the
details that a cause may carry are the constants below it.

A crash is no refusal. Where one is the outcome, nobody has looked at the bound that is broken, and
the process ends there with the words of its runtime.
-/

namespace TapeDebugger

/-- A reason to refuse, or to give up. -/
inductive Fault where
  /-- The source needs at least `found` slots for its brackets and only `limit` are allowed. -/
  | tooManyBrackets (found limit : Nat)
  /-- The settings of a run are unusable. -/
  | invalidSettings (detail : String)
  /-- The frames already recorded take `used` bytes and the next one does not fit into `limit`. -/
  | budgetExhausted (used limit : Nat)
  /-- A move through a recording is impossible from here. -/
  | moveRefused (detail : String)
  /-- The process gives up. -/
  | crash (detail : String)
  deriving Repr, DecidableEq

namespace Fault

def message : Fault → String
  | tooManyBrackets found limit =>
    s!"Too many brackets: found at least {found} pairs, limit is {limit}"
  | invalidSettings detail => s!"Invalid configuration: {detail}"
  | budgetExhausted used limit =>
    s!"Snapshot memory limit exceeded: {used} bytes used, limit is {limit}"
  | moveRefused detail => s!"History operation failed: {detail}"
  | crash detail => detail

/-! ## Details -/

/-- There is no tape without a cell. -/
def noCells : Fault := invalidSettings "tape size must be at least 1"

/-- There is no output without a byte of room. -/
def noRoom : Fault := invalidSettings "output capacity must be at least 1"

/-- The recorded run has stopped, so there is nothing more to execute. -/
def runEnded : Fault := moveRefused "No more steps available (execution finished)"

/-- There is no frame before the first one. -/
def atStart : Fault := moveRefused "Already at the beginning of execution"

/-- No frame is recorded at the wanted position. -/
def frameMissing : Fault := moveRefused "Snapshot not found in history"

/-- The tape is longer than any piece of memory. -/
def tapeTooLong : Fault := crash "capacity overflow"

/-- A count would leave the word that it is held in. -/
def countOverflow : Fault := crash "attempt to add with overflow"

end Fault

end TapeDebugger
