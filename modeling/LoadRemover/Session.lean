import LoadRemover.Head
import LoadRemover.Locate
import LoadRemover.Watcher

/-!
# A patched process

A `Session` is a process with the head block installed and every site redirected into it. `Platform.attach` starts
one or puts everything back, `Platform.poll` reads the two flags, and `Platform.restore` ends it by putting
the sites' own code back. The head block is released only after every site that might jump into it was put back.
-/

namespace LoadRemover

/-- A patched process and what is known about it. -/
structure Session (π : Type) where
  process : π
  build : Build
  moduleBase : UInt32
  snapshots : List Snapshot
  head : UInt32
  flag : UInt32
  watched : WatchList Input UInt8
  signal : LoadSignal := {}
  /-- Whether both flags were read since the session began. -/
  primed : Bool := false

namespace Session

variable {π : Type}

def observed (session : Session π) (input : Input) : UInt8 :=
  ((session.watched.get? input).bind (·.current)).getD 0

end Session

/-- What a poll of a session gave. -/
structure Poll (π : Type) where
  session : Session π
  /-- The changes of the loading signal, in order. -/
  events : List Bool
  /-- The failure that makes the process unreachable, if there was one. -/
  failure : Option Failure

namespace Platform

variable {σ π : Type}

/-! ### Undoing -/

/-- Write each site's own code back; tells whether every write succeeded. -/
def writeBack (platform : Platform σ π) (process : π) : List Snapshot → Action σ Bool
  | [] => return true
  | snapshot :: rest => do
    match ← (platform.writeCode process snapshot.code).outcome with
    | .ok _ => platform.writeBack process rest
    | .error failure =>
      .report (.restoreFailed snapshot.site failure)
      let _ ← platform.writeBack process rest
      return false

/-- Write the sites' own code back, then release the head block unless a site may still jump into it. Tells whether
every site was put back. -/
def rollback (platform : Platform σ π) (process : π) (snapshots : List Snapshot) (head : UInt32) : Action σ Bool := do
  if ← platform.writeBack process snapshots then
    if let .error failure ← (platform.free process head).outcome then
      .report (.headNotFreed head failure)
    return true
  else
    .report (.headKept head)
    return false

/-! ### Attaching -/

/-- Redirect the sites to their wrappers. If a redirection fails, the sites up to this one are put back; `done` are
the sites redirected already. -/
def redirectAll (platform : Platform σ π) (process : π) (head : Head) (base : UInt32) (done : List Snapshot) :
    List (SiteLayout × Snapshot) → Attempt σ Unit
  | [] => return ()
  | (layout, snapshot) :: rest => do
    let wrapper := head.wrapperAddress layout
    let jump := redirect snapshot.code.base wrapper
    let touched := done ++ [snapshot]
    try
      let _ ← platform.writeCode process jump
    catch failure =>
      let _ ← platform.rollback process touched base
      throw failure
    Attempt.report (.redirected snapshot.site jump.base wrapper)
    platform.redirectAll process head base touched rest

/-- Patch an accepted process. If this fails, everything written is put back and the process is closed. -/
def attach (platform : Platform σ π) (candidate : Candidate π) : Attempt σ (Session π) :=
  ExceptT.mk do
    let outcome ← patch.outcome
    if let .error _ := outcome then platform.close candidate.process
    return outcome
where
  patch : Attempt σ (Session π) := do
    let ⟨process, build, moduleBase, snapshots⟩ := candidate
    let head := Head.build snapshots
    let (code, installed) ← platform.install process head.code
    let base ← installed
    let head := { head with code }
    platform.redirectAll process head base [] (head.sites.zip snapshots)
    let flag := head.flagAddress
    return {
      process, build, moduleBase, snapshots, flag
      head := base
      watched := WatchList.add (WatchList.add [] .loading flag) .modal (moduleBase + build.modal) }

/-! ### Polling -/

/-- Read both flags. The first complete reading sets the signal, later ones report what changed. -/
def poll (platform : Platform σ π) (session : Session π) : Action σ (Poll π) := do
  if ← platform.hasExited session.process then
    return ⟨session, [], some .exited⟩
  let sweep ← session.watched.updateAll platform session.process .byte
  for (input, change) in sweep.changes do
    .report (.flagChanged input change.old change.new)
  let (signal, events) := session.signal.recordAll (sweep.changes.map fun (input, change) => (input, change.new))
  let session := { session with watched := sweep.list, signal }
  if sweep.failure.isNone && !session.primed then
    let seeds := [Input.loading, Input.modal].map fun input => (input, session.observed input)
    let (signal, seeded) := signal.recordAll seeds
    return ⟨{ session with signal, primed := true }, events ++ seeded, none⟩
  return ⟨session, events, sweep.failure⟩

/-! ### Restoring -/

/-- Put the sites' own code back, unless the process has ended, and close the process. -/
def restore (platform : Platform σ π) (session : Session π) : Action σ Unit := do
  let pid := platform.pid session.process
  if ← platform.hasExited session.process then
    .report (.nothingToRestore pid)
  else if ← platform.rollback session.process session.snapshots session.head then
    .report (.restored pid)
  else
    .report (.partiallyRestored pid)
  platform.close session.process

end Platform

end LoadRemover
