import LoadRemover.Text.Decimal

/-!
# Arguments

The words after the program's name. Options have a long name, and some a letter; letters can be written in one word.
The value of an option is the next word, or stands in the same word. Words are taken from left to right, and the
first fault counts, but a value in a word of its own is looked at only when the next option comes or the words end.
-/

namespace LoadRemover

/-- What the arguments ask for. -/
structure Arguments where
  config : String := "loadwatch.toml"
  intervalMs : Option Nat := none
  processName : Option String := none
  verbose : Bool := false
deriving DecidableEq

/-- Why arguments are not followed. -/
inductive UsageFault where
  | help
  | unknownArgument
  /-- An option that needs a value has none, or an empty one where that cannot be. -/
  | missingValue
  | invalidNumber
  | repeated
  | unexpectedValue
deriving DecidableEq

/-- The exit code of the program when it does not follow its arguments. -/
def UsageFault.exitCode : UsageFault → Nat
  | help => 0
  | _ => 2

/-! ### Options -/

/-- The options. -/
inductive ArgOption where
  | config | intervalMs | processName | verbose | help
deriving DecidableEq

namespace ArgOption

def takesValue : ArgOption → Bool
  | config | intervalMs | processName => true
  | verbose | help => false

def ofName? : String → Option ArgOption
  | "config" => some config
  | "interval-ms" => some intervalMs
  | "process-name" => some processName
  | "verbose" => some verbose
  | "help" => some help
  | _ => none

def ofLetter? : Char → Option ArgOption
  | 'c' => some config
  | 'v' => some verbose
  | 'h' => some help
  | _ => none

end ArgOption

/-! ### Words -/

/-- The form of a word. -/
inductive ArgWord where
  | terminator
  | long (name : String) (value : Option String)
  | letters (cs : List Char)
  | plain (text : String)

def ArgWord.ofText (text : String) : ArgWord :=
  match text.toList with
  | ['-', '-'] => .terminator
  | '-' :: '-' :: cs =>
    let value := match cs.dropWhile (· ≠ '=') with
      | _ :: value => some (String.ofList value)
      | [] => none
    .long (String.ofList (cs.takeWhile (· ≠ '='))) value
  | '-' :: c :: cs => .letters (c :: cs)
  | _ => .plain text

/-! ### Reading -/

/-- The words read so far. -/
structure ArgReading where
  arguments : Arguments := {}
  seen : List ArgOption := []
  /-- An option whose value is still to be looked at, and the value if it was given. -/
  pending : Option (ArgOption × Option String) := none

namespace ArgReading

def set (reading : ArgReading) (option : ArgOption) (value : Option String) : Except UsageFault ArgReading := do
  if option.takesValue && value.isNone then throw .missingValue
  if option ≠ .help && option ∈ reading.seen then throw .repeated
  let text := value.getD ""
  let arguments ← match option with
    | .help => throw .help
    | .verbose => pure { reading.arguments with verbose := true }
    | .processName => pure { reading.arguments with processName := some text }
    | .config => if text.isEmpty then throw .missingValue else pure { reading.arguments with config := text }
    | .intervalMs =>
      match natOfText? maxWord64 text with
      | some n => pure { reading.arguments with intervalMs := some n }
      | none => throw .invalidNumber
  return { reading with arguments, seen := option :: reading.seen }

def settle (reading : ArgReading) : Except UsageFault ArgReading :=
  match reading.pending with
  | some (option, value) => { reading with pending := none }.set option value
  | none => .ok reading

def give (reading : ArgReading) (option : ArgOption) (value : Option String) : Except UsageFault ArgReading := do
  if value.isSome && !option.takesValue then throw .unexpectedValue
  let reading ← reading.settle
  if option.takesValue && value.isNone then return { reading with pending := some (option, none) }
  reading.set option value

/-- Take a word of letters. What follows the letter of an option with a value is its value. -/
def giveLetters (reading : ArgReading) : List Char → Except UsageFault ArgReading
  | [] => .ok reading
  | c :: cs =>
    match ArgOption.ofLetter? c with
    | none => .error .unknownArgument
    | some option =>
      if option.takesValue then
        match cs with
        | [] => reading.give option none
        | '=' :: value => reading.give option (some (String.ofList value))
        | value => reading.give option (some (String.ofList value))
      else do (← reading.give option none).giveLetters cs

def take (reading : ArgReading) (word : ArgWord) : Except UsageFault ArgReading :=
  match word with
  | .long name value =>
    match ArgOption.ofName? name with
    | some option => reading.give option value
    | none => .error .unknownArgument
  | .letters cs => reading.giveLetters cs
  | .plain text =>
    match reading.pending with
    | some (option, none) => .ok { reading with pending := some (option, some text) }
    | _ => .error .unknownArgument
  | .terminator => .ok reading

/-- Take words up to the end. Nothing may follow two dashes. -/
def takeAll (reading : ArgReading) : List String → Except UsageFault Arguments
  | [] => return (← reading.settle).arguments
  | text :: texts =>
    match ArgWord.ofText text with
    | .terminator => if texts.isEmpty then return (← reading.settle).arguments else .error .unknownArgument
    | word => do (← reading.take word).takeAll texts

end ArgReading

def Arguments.ofWords (words : List String) : Except UsageFault Arguments := ({} : ArgReading).takeAll words

end LoadRemover
