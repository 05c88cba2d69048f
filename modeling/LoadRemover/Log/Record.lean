import LoadRemover.Diagnostic

/-!
# Log records

A line of the log says how much it matters, where it comes from and what happened.
-/

namespace LoadRemover

/-- An entry of the log. -/
structure LogRecord where
  level : Level
  origin : String
  message : String

/-- The names of the fields of an entry. All that it says is one message. -/
def LogRecord.fields : List String := ["message"]

def Diagnostic.record (diagnostic : Diagnostic) : LogRecord where
  level := diagnostic.level
  origin := diagnostic.origin
  message := diagnostic.message

/-- A character in a log line. Those that a terminal would obey are spelled out. -/
def visible (c : Char) : List Char :=
  let n := c.toNat
  let digits := Nat.toDigits 16 n
  if n ∈ [0x07, 0x08, 0x0C] then ['\\', 'x', '0'] ++ digits
  else if n = 0x1B || n = 0x7F then ['\\', 'x'] ++ digits
  else if 0x80 ≤ n && n ≤ 0x9F then ['\\', 'u', '\x7b'] ++ digits ++ ['\x7d']
  else [c]

def LogRecord.line (record : LogRecord) : String :=
  s!"{record.level.name} {record.origin}: {String.ofList (record.message.toList.flatMap visible)}"

end LoadRemover
