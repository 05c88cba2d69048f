import LoadRemover.Engine
import LoadRemover.Text.Clock

/-!
# What the program prints

The lines for a change of the loading signal, for attaching and detaching, and the summary at the end. Colours are
terminal codes around the coloured words.
-/

namespace LoadRemover

/-! ### Colours -/

namespace Style

private def wrap (on off : Nat) (text : String) : String := s!"\x1b[{on}m{text}\x1b[{off}m"

def bold : String → String := wrap 1 0
def red : String → String := wrap 31 39
def green : String → String := wrap 32 39
def yellow : String → String := wrap 33 39

end Style

/-! ### Lines -/

namespace LoadTimer

/-- Take in an event of the engine at an instant; the second part is the line to print, if the state changed. -/
def onLoading (timer : LoadTimer) (loading : Bool) (now : Instant) : LoadTimer × Option String :=
  let (timer, changed) := timer.setLoading loading now
  let word := if loading then Style.bold (Style.yellow "LOADING") else Style.bold (Style.green "RUNNING")
  (timer, if changed then some s!"[{(timer.gameTime now).text}] {word}" else none)

/-- Take in events of the engine, each at its instant; the second part are the lines to print. -/
def follow (timer : LoadTimer) : List (Bool × Instant) → LoadTimer × List String
  | [] => (timer, [])
  | (loading, now) :: events =>
    let (timer, line) := timer.onLoading loading now
    let (timer, lines) := timer.follow events
    (timer, line.toList ++ lines)

def summary (timer : LoadTimer) (now : Instant) : String :=
  let real := (timer.realTime now).text
  let loading := (timer.loadingTime now).text
  let game := Style.bold (timer.gameTime now).text
  s!"Real time {real}  |  loading {loading} ({timer.loads} loads)  |  without loads {game}"

end LoadTimer

def attachmentLine : Option Attachment → String
  | some a => Style.green "Hooked" ++ s!" pid {a.pid} ({a.build} build, head at {hex a.head.toNat})"
  | none => Style.red "Detached," ++ " waiting for Midnight Club 2..."

end LoadRemover
