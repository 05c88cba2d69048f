/-!
# The loading signal

Two bytes of the game are watched. The *loading flag* is written by the wrappers around the game's loading
functions, and the *modal flag* is the game's own mark that a disclaimer or another modal screen is up. Together they
say whether the game is loading (`isLoading`); a `LoadSignal` remembers both and tells when this changes.
-/

namespace LoadRemover

/-! ### Values of the loading flag -/

namespace Flag

/-- No wrapped call is running. -/
def idle : UInt8 := 0

/-- A wrapped call is running. -/
def busy : UInt8 := 1

/-- Left behind by the frontend, which runs before play and also under a modal screen during play. -/
def ambiguous : UInt8 := 2

end Flag

/-- Whether the game is loading: the loading flag decides, unless it is ambiguous, when the modal flag does. -/
def isLoading (loading modal : UInt8) : Bool :=
  if loading = Flag.ambiguous then modal != 0 else loading != Flag.idle

/-- The two watched flags. -/
inductive Input where
  | loading
  | modal
deriving DecidableEq

def Input.name : Input → String
  | .loading => "Loading"
  | .modal => "Modal"

/-- The latest value of both flags and the signal derived from them. -/
structure LoadSignal where
  loading : UInt8 := 0
  modal : UInt8 := 0
  current : Bool := false
deriving DecidableEq

namespace LoadSignal

/-- Derive the signal anew; the second part is its new value, if it changed. -/
def refresh (signal : LoadSignal) : LoadSignal × Option Bool :=
  let next := isLoading signal.loading signal.modal
  if next = signal.current then (signal, none) else ({ signal with current := next }, some next)

/-- Take in a new value of one flag; the second part is the signal's new value, if it changed. -/
def record (signal : LoadSignal) : Input → UInt8 → LoadSignal × Option Bool
  | .loading, value => { signal with loading := value }.refresh
  | .modal, value => { signal with modal := value }.refresh

/-- Take in several values in order; the second part lists the changes of the signal. -/
def recordAll (signal : LoadSignal) : List (Input × UInt8) → LoadSignal × List Bool
  | [] => (signal, [])
  | (input, value) :: rest =>
    let (signal, change) := signal.record input value
    let (signal, changes) := signal.recordAll rest
    (signal, change.toList ++ changes)

end LoadSignal

end LoadRemover
