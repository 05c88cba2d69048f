/-!
# Schedules of disturbances

A schedule says which calls do not go their usual way. Each disturbance waits for the calls with one key, lets some
of them through and then takes some. `Schedule.meet` is what a call does to a schedule.
-/

namespace LoadRemover

/-- Something that happens to calls with a key. -/
structure Disturbance (κ ε : Type) where
  key : κ
  /-- The number of calls to let through first. -/
  skip : Nat
  /-- The number of calls to take after that. -/
  count : Nat
  effect : ε

abbrev Schedule (κ ε : Type) := List (Disturbance κ ε)

namespace Schedule

variable {κ ε : Type} [DecidableEq κ]

/-- What a call meets, if anything, and the schedule afterwards. Only the first disturbance for the key that is not
used up sees the call. -/
def meet (key : κ) : Schedule κ ε → Option ε × Schedule κ ε
  | [] => (none, [])
  | d :: rest =>
    if d.key = key ∧ 0 < d.count then
      if 0 < d.skip then
        (none, { d with skip := d.skip - 1 } :: rest)
      else
        (some d.effect, { d with count := d.count - 1 } :: rest)
    else
      let (effect, rest) := meet key rest
      (effect, d :: rest)

end Schedule

end LoadRemover
