import LoadRemover.Engine
import LoadRemover.Folder
import LoadRemover.Log.Record
import LoadRemover.Timer
import LoadRemover.Toml.Document

/-!
# The configuration of the program

The name to look for and the pace of the engine. They come from a file, which need not exist, and arguments take
precedence over it. A file that cannot be used counts as missing, but a warning is logged.
-/

namespace LoadRemover

/-- The configuration. -/
structure Config where
  processName : String := ({} : EngineConfig).processName
  intervalMs : Nat := 15
deriving DecidableEq

/-- Why a configuration file cannot be used. -/
inductive ConfigFault where
  | unreadable (fault : ReadFault)
  /-- It is not TOML, or a value has the wrong type or range. -/
  | malformed
deriving DecidableEq

namespace ConfigFault

def message (path : String) : ConfigFault → String
  | unreadable _ => s!"Failed to read {path}"
  | malformed => s!"Failed to parse {path}"

/-- The fault of the file at a path and its cause, if that is known. -/
def explanation (path : String) (fault : ConfigFault) : String :=
  match fault with
  | unreadable cause => s!"{fault.message path}: {cause.message}"
  | malformed => fault.message path

end ConfigFault

namespace Config

/-- The configuration that the outermost table of a document gives; keys with other names do not count. -/
def ofEntries? (entries : Toml.Entries) : Option Config := do
  let processName ← match entries.get? "process_name" with
    | none => some ({} : Config).processName
    | some (.value (.string text)) => some text
    | some _ => none
  let intervalMs ← match entries.get? "interval_ms" with
    | none => some ({} : Config).intervalMs
    | some (.value (.integer (.ofNat n))) => some n
    | some _ => none
  return { processName, intervalMs }

def ofText? (text : String) : Option Config := do ofEntries? (← Toml.Document.read text)

/-- The configuration in a file, or `none` if there is no file. -/
def load (file : Except ReadFault String) : Except ConfigFault (Option Config) :=
  match file with
  | .error .absent => .ok none
  | .error fault => .error (.unreadable fault)
  | .ok text =>
    match ofText? text with
    | some config => .ok (some config)
    | none => .error .malformed

def orDefault : Except ConfigFault (Option Config) → Config
  | .ok (some config) => config
  | _ => {}

def report (path : String) (loaded : Except ConfigFault (Option Config)) : LogRecord :=
  let (level, message) := match loaded with
    | .ok (some _) => (Level.info, s!"Loaded config from {path}")
    | .ok none => (Level.debug, s!"No config at {path}, using defaults")
    | .error fault => (Level.warn, s!"{fault.explanation path}, using defaults")
  { level, origin := "loadwatch::config", message }

def withOverrides (config : Config) (processName : Option String) (intervalMs : Option Nat) : Config where
  processName := processName.getD config.processName
  intervalMs := intervalMs.getD config.intervalMs

/-- The milliseconds between ticks that are kept: at least one. -/
def pace (config : Config) : Nat := max config.intervalMs 1

def interval (config : Config) : Duration := config.pace * 1000000

end Config

end LoadRemover
