import LoadRemover.Arguments
import LoadRemover.Config
import LoadRemover.Display
import LoadRemover.Log.Filter

/-!
# The program

The program runs an engine and prints what happens. Each of its steps gives the lines to print: `start` up to the
first tick, `tick` for every tick, and `finish` for the end.
-/

namespace LoadRemover

/-- The running program over handles `π`. -/
structure Program (π : Type) where
  config : Config
  filter : LogFilter
  engine : Engine π
  timer : LoadTimer
  attachedPid : Option UInt32 := none

namespace Program

variable {σ π : Type}

/-- The filter of the log: what the environment asks for, and how much is shown of this program itself. -/
def logFilter (environment : String) (verbose : Bool) : LogFilter :=
  (LogFilter.ofText environment).add { origin := "loadwatch", verbosity := .upTo (if verbose then .debug else .info) }

def note (message : String) : LogRecord := { level := .info, origin := "loadwatch", message }

/-- Start with the given arguments, filter of the environment and content of the configuration file. -/
def start (arguments : Arguments) (environment : String) (file : Except ReadFault String) (now : Instant) :
    Program π × List String :=
  let filter := logFilter environment arguments.verbose
  let loaded := Config.load file
  let config := (Config.orDefault loaded).withOverrides arguments.processName arguments.intervalMs
  let program := {
    config, filter
    engine := { config := { processName := config.processName } }
    timer := { started := now } }
  let records := [Config.report arguments.config loaded,
    note s!"Watching for \"{config.processName}\" every {config.pace} ms"]
  (program, filter.lines records ++ ["Waiting for Midnight Club 2... (Ctrl+C to quit)"])

def tick (program : Program π) (platform : Platform σ π) (now : Instant) : StateM σ (Program π × List String) :=
  fun world =>
    let ((engine, events), after) := program.engine.update platform ⟨world, []⟩
    let (timer, changes) := program.timer.follow (events.map (·, now))
    let attachment := engine.attachment platform
    let attachedPid := attachment.map (·.pid)
    let news := if attachedPid = program.attachedPid then [] else [attachmentLine attachment]
    let lines := program.filter.lines (after.log.map (·.record)) ++ changes ++ news
    (({ program with engine, timer, attachedPid }, lines), after.world)

def stopLines (program : Program π) : List String :=
  program.filter.lines [note "Received shutdown signal, stopping..."]

def finish (program : Program π) (platform : Platform σ π) (now : Instant) : StateM σ (List String) :=
  fun world =>
    let ((_, events), after) := program.engine.shutdown platform ⟨world, []⟩
    let (timer, changes) := program.timer.follow (events.map (·, now))
    (program.filter.lines (after.log.map (·.record)) ++ changes ++ [timer.summary now], after.world)

end Program

end LoadRemover
