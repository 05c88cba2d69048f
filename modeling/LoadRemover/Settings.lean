import LoadRemover.Json.Scan

/-!
# Stored settings

A host may store settings and read them back. There is nothing to set yet, so any object is accepted and what it
contains is ignored.
-/

namespace LoadRemover

/-- The settings, of which there are none. -/
structure Settings where
deriving DecidableEq

namespace Settings

def toJson (_settings : Settings) : String := "\x7b\x7d"

def ofJson (text : String) : Except Json.Fault Settings := do
  Json.scan text.toUTF8.toList
  return {}

end Settings

end LoadRemover
