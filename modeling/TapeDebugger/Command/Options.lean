-- SUMMARY: The command line: which options there are, and how a list of arguments is read.
import TapeDebugger.Recording.Archive
import TapeDebugger.Settings
import TapeDebugger.Word

/-!
# Options

Arguments are read from left to right. The first one that is wrong, or the request for the version,
decides; what follows it is not looked at. Every option may be given once. A number belongs to its
option either behind an equals sign or as the next argument. After `--` nothing is an option.
-/

namespace TapeDebugger.Command

/-- What a command line asks for. -/
structure Options where
  source : String
  input : String := ""
  viewer : Bool := false
  settings : Settings := {}
  /-- The bytes that the viewer's recording may take. -/
  budget : Nat := Archive.defaultBudget
  quiet : Bool := false
  deriving Repr, DecidableEq

/-- An option without a value. -/
inductive Flag where
  | viewer
  | eightBit
  | zeroClears
  | quiet
  deriving Repr, DecidableEq

/-- An option with a number. -/
inductive Amount where
  | tapeSize
  | instructionLimit
  | outputCapacity
  | bracketCapacity
  | budget
  deriving Repr, DecidableEq

/-- What an option's name stands for. -/
inductive Switch where
  | flag (f : Flag)
  | amount (a : Amount)
  | version
  deriving Repr, DecidableEq

def Switch.ofLong? : String → Option Switch
  | "tui" => some (.flag .viewer)
  | "extended-ascii" => some (.flag .eightBit)
  | "set-zero" => some (.flag .zeroClears)
  | "quiet" => some (.flag .quiet)
  | "tape-size" => some (.amount .tapeSize)
  | "max-instructions" => some (.amount .instructionLimit)
  | "output-capacity" => some (.amount .outputCapacity)
  | "bracket-capacity" => some (.amount .bracketCapacity)
  | "snapshot-limit" => some (.amount .budget)
  | "version" => some .version
  | _ => none

def Switch.ofShort? : Char → Option Switch
  | 'q' => some (.flag .quiet)
  | 'V' => some .version
  | _ => none

/-! ## Numbers -/

/-- The value of decimal digits, most significant first. -/
def digitsValue (digits : List Char) : Nat :=
  digits.foldl (fun value digit => value * 10 + (digit.toNat - '0'.toNat)) 0

/-- A number that fits into a word, in decimal digits behind an optional plus sign. -/
def number? (text : String) : Option Nat :=
  let digits :=
    match text.toList with
    | '+' :: rest => rest
    | chars => chars
  if digits.isEmpty || digits.any (! ·.isDigit) then none
  else
    let value := digitsValue digits
    if value ≤ Word.last then some value else none

/-! ## Reading arguments -/

/-- What the arguments read so far have given. -/
structure Draft where
  source : Option String := none
  input : Option String := none
  flags : List Flag := []
  amounts : List (Amount × Nat) := []
  deriving Repr, DecidableEq

/-- What comes of a command line. -/
inductive Request where
  | run (options : Options)
  | version
  /-- The arguments make no sense. -/
  | misuse
  deriving Repr, DecidableEq

namespace Draft

/-- Take an argument that is no option: the source first, which has to have a name, then the input. -/
def operand (d : Draft) (text : String) : Option Draft :=
  match d.source, d.input with
  | none, _ => if text.isEmpty then none else some { d with source := some text }
  | some _, none => some { d with input := some text }
  | some _, some _ => none

def flag (d : Draft) (f : Flag) : Option Draft :=
  if f ∈ d.flags then none else some { d with flags := f :: d.flags }

def amount (d : Draft) (a : Amount) (text : String) : Option Draft :=
  match d.amounts.lookup a, number? text with
  | none, some value => some { d with amounts := (a, value) :: d.amounts }
  | _, _ => none

/-- The options in full, once all arguments are read; a source is required. -/
def request (d : Draft) : Request :=
  match d.source with
  | none => .misuse
  | some source =>
    let value (a : Amount) (otherwise : Nat) : Nat := (d.amounts.lookup a).getD otherwise
    let usual : Settings := {}
    .run
      { source
        input := d.input.getD ""
        viewer := .viewer ∈ d.flags
        settings :=
          { tapeSize := value .tapeSize usual.tapeSize
            bracketCapacity := value .bracketCapacity usual.bracketCapacity
            instructionLimit := value .instructionLimit usual.instructionLimit
            outputCapacity := value .outputCapacity usual.outputCapacity
            sevenBit := .eightBit ∉ d.flags
            zeroClears := .zeroClears ∈ d.flags }
        budget := value .budget Archive.defaultBudget
        quiet := .quiet ∈ d.flags }

/-- Read arguments none of which is an option. -/
def readOperands : List String → Draft → Request
  | [], d => d.request
  | text :: rest, d =>
    match d.operand text with
    | some d => readOperands rest d
    | none => .misuse

/-- Read the letters behind a single dash, and then go on with `next`. -/
def readLetters (next : Draft → Request) : List Char → Draft → Request
  | [], d => next d
  | letter :: rest, d =>
    match Switch.ofShort? letter with
    | some (.flag f) =>
      match d.flag f with
      | some d => readLetters next rest d
      | none => .misuse
    | some .version => .version
    | some (.amount _) | none => .misuse

end Draft

/-- The kinds of argument before `--`. -/
inductive Argument where
  /-- Two dashes alone: no more options. -/
  | endOfOptions
  /-- Two dashes and a name, with what follows an equals sign if there is one. -/
  | long (name : String) (value : Option String)
  /-- One dash and some letters. -/
  | short (letters : List Char)
  /-- Anything else; a dash alone is no option. -/
  | operand (text : String)
  deriving Repr, DecidableEq

def Argument.ofString (text : String) : Argument :=
  match text.toList with
  | ['-', '-'] => .endOfOptions
  | '-' :: '-' :: chars =>
    let name := chars.takeWhile (· ≠ '=')
    match chars.drop name.length with
    | _ :: value => .long (String.ofList name) (some (String.ofList value))
    | [] => .long (String.ofList name) none
  | '-' :: letter :: letters => .short (letter :: letters)
  | _ => .operand text

/-- Read arguments from left to right. -/
def Draft.read : List String → Draft → Request
  | [], d => d.request
  | argument :: rest, d =>
    match Argument.ofString argument with
    | .endOfOptions => readOperands rest d
    | .operand text =>
      match d.operand text with
      | some d => read rest d
      | none => .misuse
    | .short letters => readLetters (read rest) letters d
    | .long name attached =>
      match Switch.ofLong? name, attached with
      | some (.flag f), none =>
        match d.flag f with
        | some d => read rest d
        | none => .misuse
      | some .version, none => .version
      | some (.amount a), some value =>
        match d.amount a value with
        | some d => read rest d
        | none => .misuse
      | some (.amount a), none =>
        match rest with
        | [] => .misuse
        | value :: rest =>
          match Argument.ofString value with
          | .operand value =>
            match d.amount a value with
            | some d => read rest d
            | none => .misuse
          | _ => .misuse
      | _, _ => .misuse

/-- What a command line asks for. -/
def parse (arguments : List String) : Request := Draft.read arguments {}

end TapeDebugger.Command
