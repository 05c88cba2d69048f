import LoadRemover.Signal

/-!
# The wrapped functions

The five functions of the game that run while it loads. Each is wrapped at its entry point.
-/

namespace LoadRemover

/-- A function of the game that gets wrapped. -/
inductive Site where
  | game
  | movie
  | frontend
  | raceEditor
  | carViewer
deriving DecidableEq

namespace Site

/-- All sites, in the order in which they are checked and patched. -/
def all : List Site := [game, movie, frontend, raceEditor, carViewer]

def name : Site → String
  | game => "game"
  | movie => "movie"
  | frontend => "frontend"
  | raceEditor => "race_editor"
  | carViewer => "car_viewer"

/-- The number of stack arguments that the function takes and removes. -/
def stackArgs : Site → UInt8
  | game => 1
  | _ => 0

/-- The loading flag after a wrapped call has returned. The frontend also runs under a modal screen during play, so
it leaves the flag ambiguous. -/
def endValue : Site → UInt8
  | frontend => Flag.ambiguous
  | _ => Flag.idle

end Site

end LoadRemover
