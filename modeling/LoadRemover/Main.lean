import LoadRemover.Program
import LoadRemover.StopSignal
import LoadRemover.Target.Unsupported
import Std.Internal.UV.Signal

/-!
# The command line

Runs the program until it is interrupted: reads the arguments, the environment, the configuration file and the clock,
and prints the lines that `Program` gives.
-/

namespace LoadRemover.CommandLine

def usage : String := "\n".intercalate [
  "Load remover for Midnight Club 2",
  "",
  "Usage: loadwatch [OPTIONS]",
  "",
  "Options:",
  "  -c, --config <CONFIG>              [default: loadwatch.toml]",
  "      --interval-ms <INTERVAL_MS>    Milliseconds between polls (overrides the config file)",
  "      --process-name <PROCESS_NAME>  Process name substring to attach to (overrides the config file)",
  "  -v, --verbose                      Enable debug logging",
  "  -h, --help                         Print help"]

/-- The number of the signal that an interrupt from the keyboard sends. -/
def interrupt : Int32 := 2

/-- The longest time in milliseconds after which a request to stop is noticed. -/
def slice : Nat := 10

def printLines (lines : List String) : IO Unit := do
  let output ← IO.getStdout
  for line in lines do output.putStrLn line
  output.flush

def readText (path : String) : IO (Except ReadFault String) := do
  try
    return textOfBytes (← IO.FS.withFile path .read (·.readBinToEnd)).toList
  catch
    | .noFileOrDirectory .. => return .error .absent
    | .inappropriateType _ 20 _ => return .error .notDirectory
    | .inappropriateType .. => return .error .isDirectory
    | .invalidArgument _ 36 _ => return .error .tooLong
    | .invalidArgument _ code reason | .permissionDenied _ code reason =>
      return .error (.other s!"{reason} (os error {code})")
    | failure => return .error (.other (toString failure))

def now : IO Instant := return (← IO.monoNanosNow)

/-- Wait for a number of milliseconds or for the interrupt, whichever comes first. -/
def wait {α : Type} (interrupted : Task α) (milliseconds : Nat) : IO StopSignal := do
  let mut left := milliseconds
  let mut signal : StopSignal := {}
  while 0 < left && !signal.requested do
    IO.sleep (UInt32.ofNat (min left slice))
    left := left - slice
    if ← IO.hasFinished interrupted then signal := signal.trigger
  return signal

def run (arguments : Arguments) : IO Unit := do
  let environment := (← IO.getEnv "RUST_LOG").getD ""
  let file ← readText arguments.config
  let interrupted := (← (← Std.Internal.UV.Signal.mk interrupt false).next).result?
  let (started, opening) := Program.start arguments environment file (← now)
  printLines opening
  let mut program : Program Empty := started
  repeat do
    let ((next, lines), ()) := program.tick Unsupported.platform (← now) ()
    program := next
    printLines lines
    if (← wait interrupted program.config.pace).requested then break
  printLines program.stopLines
  let (lines, ()) := program.finish Unsupported.platform (← now) ()
  printLines lines

end LoadRemover.CommandLine

open LoadRemover in
def main (words : List String) : IO UInt32 := do
  match Arguments.ofWords words with
  | .ok arguments =>
    CommandLine.run arguments
    return 0
  | .error fault =>
    (if fault = .help then IO.println else IO.eprintln) CommandLine.usage
    return UInt32.ofNat fault.exitCode
