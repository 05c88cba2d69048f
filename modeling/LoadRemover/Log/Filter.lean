import LoadRemover.Log.Record
import LoadRemover.Text.Blank
import LoadRemover.Text.Decimal

/-!
# Log filters

A filter is a list of rules. A rule says how much is shown of the origins that begin with a text, and the rule with
the longest such text decides. In text, rules are separated by commas:

* `debug` or `4` is a rule for all origins, where `off` or `0` shows nothing;
* `game::menu` shows everything of the origins that begin so;
* `game::menu=info` shows some of it;
* `game::menu[{message}]=info` does so only for the entries with a field of that name, but goes before a rule for the
  same origins that names no field.

What is no rule does not count. Nor does a rule about the value of a field or about a span in time, such as
`game::menu[{message=hi}]` or `game::menu[opening]`, because no entry is recorded within a span.
-/

namespace LoadRemover

/-- How much is shown: everything down to a level, or nothing. -/
inductive Verbosity where
  | off
  | upTo (level : Level)
deriving DecidableEq

namespace Verbosity

def admits (verbosity : Verbosity) (level : Level) : Bool :=
  match verbosity with
  | off => false
  | upTo limit => level.rank ≤ limit.rank

def ofText? (text : String) : Option Verbosity :=
  match natOfText? maxWord64 text with
  | some 0 => some off
  | some 1 => some (upTo .error)
  | some 2 => some (upTo .warn)
  | some 3 => some (upTo .info)
  | some 4 => some (upTo .debug)
  | some 5 => some (upTo .trace)
  | some _ => none
  | none =>
    match String.ofList (text.toList.map Char.toLower) with
    | "error" => some (upTo .error)
    | "warn" => some (upTo .warn)
    | "info" => some (upTo .info)
    | "debug" => some (upTo .debug)
    | "trace" => some (upTo .trace)
    | "off" => some off
    | _ => none

end Verbosity

/-- How much is shown of the origins that begin with a text. -/
structure LogRule where
  origin : String
  /-- The name of a field, if only the entries with that field are meant. -/
  field : Option String := none
  verbosity : Verbosity
deriving DecidableEq

namespace LogRule

def covers (rule : LogRule) (record : LogRecord) : Bool :=
  rule.origin.toList.isPrefixOf record.origin.toList && rule.field.all fun name => LogRecord.fields.contains name

/-- Whether two rules speak about the same entries by the same names. -/
def sameScope (rule other : LogRule) : Bool := rule.origin = other.origin && rule.field = other.field

/-- Whether a rule goes before another. Of two rules for the same origins it is the one that names a field. -/
def precedes (rule other : LogRule) : Bool :=
  other.origin.length < rule.origin.length ||
    rule.origin.length = other.origin.length && rule.field.isSome && other.field.isNone

/-- The name of the field in brackets at the start of a text, and the rest. -/
def bracketedField? : List Char → Option (String × List Char)
  | '[' :: '\x7b' :: cs =>
    match cs.span (· ≠ '\x7d') with
    | (name, '\x7d' :: ']' :: rest) =>
      if name.isEmpty || name.contains '=' then none else some (String.ofList name, rest)
    | _ => none
  | _ => none

/-- The verbosity that the end of a rule gives. Without a level everything is shown. -/
def verbosityAtEnd? : List Char → Option Verbosity
  | ['='] => some (.upTo .trace)
  | '=' :: level => Verbosity.ofText? (String.ofList level)
  | rest => if rest.all isWhiteSpace then some (.upTo .trace) else none

def ofText? (text : String) : Option LogRule := do
  if let some verbosity := Verbosity.ofText? text then return { origin := "", verbosity }
  let (start, rest) := text.toList.span fun c => c ≠ '=' && c ≠ '['
  let origin := String.ofList start
  if rest.head? = some '[' then
    let (name, rest) ← bracketedField? rest
    return { origin, field := some name, verbosity := ← verbosityAtEnd? rest }
  else if origin.isEmpty then none
  else return { origin, verbosity := ← verbosityAtEnd? rest }

end LogRule

/-- Rules, of which no two have the same scope. -/
structure LogFilter where
  rules : List LogRule := []

namespace LogFilter

/-- Add a rule in place of one with the same scope. -/
def add (filter : LogFilter) (rule : LogRule) : LogFilter where
  rules := rule :: filter.rules.filter (!·.sameScope rule)

def ofText (text : String) : LogFilter :=
  ((text.splitOn ",").filter (!·.isEmpty) |>.filterMap LogRule.ofText?).foldl add {}

def ruleFor? (filter : LogFilter) (record : LogRecord) : Option LogRule :=
  (filter.rules.filter (·.covers record)).foldl first none
where
  first (best : Option LogRule) (rule : LogRule) : Option LogRule :=
    match best with
    | none => some rule
    | some other => if rule.precedes other then some rule else some other

def admits (filter : LogFilter) (record : LogRecord) : Bool :=
  match filter.ruleFor? record with
  | some rule => rule.verbosity.admits record.level
  | none => false

def lines (filter : LogFilter) (records : List LogRecord) : List String :=
  (records.filter filter.admits).map (·.line)

end LogFilter

end LoadRemover
