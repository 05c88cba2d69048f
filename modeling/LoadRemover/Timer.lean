/-!
# Time without loads

A `LoadTimer` follows the loading signal and adds up how long it was on. Instants are nanoseconds on any common
clock, and durations are nanoseconds; the time from a later instant to an earlier one counts as nothing.
-/

namespace LoadRemover

/-- Nanoseconds on a common clock. -/
abbrev Instant := Int

abbrev Duration := Nat

def Duration.between (start now : Instant) : Duration := (now - start).toNat

/-- Real time and loading time since the timer started. -/
structure LoadTimer where
  started : Instant
  loadingSince : Option Instant := none
  loadingTotal : Duration := 0
  loads : Nat := 0

namespace LoadTimer

def isLoading (timer : LoadTimer) : Bool := timer.loadingSince.isSome

/-- Take in the loading signal at an instant; the second part tells whether it changed. -/
def setLoading (timer : LoadTimer) (loading : Bool) (now : Instant) : LoadTimer × Bool :=
  match timer.loadingSince, loading with
  | none, true => ({ timer with loadingSince := some now, loads := timer.loads + 1 }, true)
  | some since, false =>
    ({ timer with loadingSince := none, loadingTotal := timer.loadingTotal + .between since now }, true)
  | _, _ => (timer, false)

def realTime (timer : LoadTimer) (now : Instant) : Duration := .between timer.started now

def loadingTime (timer : LoadTimer) (now : Instant) : Duration :=
  timer.loadingTotal + (timer.loadingSince.map (Duration.between · now)).getD 0

def gameTime (timer : LoadTimer) (now : Instant) : Duration := timer.realTime now - timer.loadingTime now

end LoadTimer

end LoadRemover
