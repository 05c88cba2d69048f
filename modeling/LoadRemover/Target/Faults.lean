import LoadRemover.Schedule
import LoadRemover.Target.Platform

/-!
# Accesses that fail on schedule

`Faulty.platform` is a platform whose accesses fail when a schedule says so, without reaching the platform beneath.
Failures are scheduled for the number of a process and an operation on it.
-/

namespace LoadRemover

/-- The operations that can be made to fail. -/
inductive Operation where
  | read | write | allocate | free | is64Bit | moduleBase | hasExited | openProcess
deriving DecidableEq

/-- A world and the failures scheduled for it. -/
structure Faulty (σ : Type) where
  world : σ
  schedule : Schedule (UInt32 × Operation) Failure := []

namespace Faulty

variable {σ π α : Type}

def check (pid : UInt32) (operation : Operation) : Action (Faulty σ) (Option Failure) :=
  .onWorld fun s =>
    let (failure, schedule) := s.schedule.meet (pid, operation)
    (failure, { s with schedule })

def beneath (action : Action σ α) : Action (Faulty σ) α :=
  action.within (·.world) fun world s => { s with world }

/-- An access to the world beneath, unless it has to fail. -/
def guarded (pid : UInt32) (operation : Operation) (attempt : Attempt σ α) : Attempt (Faulty σ) α :=
  ExceptT.mk do
    match ← check pid operation with
    | some failure => return .error failure
    | none => beneath attempt.run

/-- The platform over the world beneath whose accesses fail on schedule. Instead of failing, the question whether a
process has exited is answered with yes. -/
def platform (inner : Platform σ π) : Platform (Faulty σ) π where
  processes := ExceptT.mk (beneath inner.processes.run)
  openProcess info := guarded info.pid .openProcess (inner.openProcess info)
  close process := beneath (inner.close process)
  pid := inner.pid
  hasExited process := do
    match ← check (inner.pid process) .hasExited with
    | some _ => return true
    | none => beneath (inner.hasExited process)
  is64Bit process := guarded (inner.pid process) .is64Bit (inner.is64Bit process)
  moduleBase process := guarded (inner.pid process) .moduleBase (inner.moduleBase process)
  read process address n := guarded (inner.pid process) .read (inner.read process address n)
  write process address bytes := guarded (inner.pid process) .write (inner.write process address bytes)
  allocate process size := guarded (inner.pid process) .allocate (inner.allocate process size)
  free process address := guarded (inner.pid process) .free (inner.free process address)

end Faulty

end LoadRemover
