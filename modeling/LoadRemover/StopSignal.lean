/-!
# Stopping the program

A request to stop. Waiting ends at once if the request was made, and otherwise when the time is over.
-/

namespace LoadRemover

/-- Whether the program was asked to stop. -/
structure StopSignal where
  requested : Bool := false

namespace StopSignal

def trigger (_signal : StopSignal) : StopSignal := { requested := true }

/-- Whether a wait that nobody interrupts ends early, because the program was asked to stop before. -/
def wait (signal : StopSignal) (_milliseconds : Nat) : Bool := signal.requested

end StopSignal

end LoadRemover
