import LoadRemover.Session

/-!
# The engine

An `Engine` looks for the game while it is detached and watches it while it is attached. Each call gives the *events*
to pass on: the new values of the loading signal. When a session ends, for whatever reason, the last event says that
the game is not loading, so a timer that follows the events never stays paused.
-/

namespace LoadRemover

/-- What to look for. -/
structure EngineConfig where
  processName : String := "mc2"
deriving DecidableEq

namespace EngineConfig

/-- Settings given one by one; what is not given keeps its default. -/
structure Builder where
  name? : Option String := none

/-- Give the process name; the last one given counts. -/
def Builder.processName (_builder : Builder) (name : String) : Builder := { name? := some name }

def Builder.build (builder : Builder) : EngineConfig :=
  match builder.name? with
  | some processName => { processName }
  | none => {}

end EngineConfig

/-- What is known about the patched process. -/
structure Attachment where
  pid : UInt32
  build : String
  moduleBase : UInt32
  head : UInt32
  flag : UInt32
deriving DecidableEq

/-- An engine that is detached or attached to one process. -/
structure Engine (π : Type) where
  config : EngineConfig := {}
  session : Option (Session π) := none

namespace Engine

variable {σ π : Type}

def isAttached (engine : Engine π) : Bool := engine.session.isSome

/-- The loading signal, `false` while detached. -/
def isLoading (engine : Engine π) : Bool :=
  match engine.session with
  | some session => session.signal.current
  | none => false

def attachment (engine : Engine π) (platform : Platform σ π) : Option Attachment :=
  engine.session.map fun session => {
    pid := platform.pid session.process
    build := session.build.name
    moduleBase := session.moduleBase
    head := session.head
    flag := session.flag }

def tryAttach (engine : Engine π) (platform : Platform σ π) : Action σ (Engine π) := do
  let some candidate ← platform.findTarget engine.config.processName
    | return engine
  let pid := platform.pid candidate.process
  match ← (platform.attach candidate).outcome with
  | .ok session =>
    .report (.hooked pid candidate.build.name session.moduleBase session.head)
    return { engine with session := some session }
  | .error failure =>
    .report (.hookFailed pid failure)
    return engine

/-- One tick: attach when detached, poll when attached. -/
def update (engine : Engine π) (platform : Platform σ π) : Action σ (Engine π × List Bool) := do
  match engine.session with
  | none => return (← engine.tryAttach platform, [])
  | some session =>
    let poll ← platform.poll session
    match poll.failure with
    | none => return ({ engine with session := some poll.session }, poll.events)
    | some failure =>
      .report (if failure.isProcessLost then .lost failure else .detached failure)
      platform.close session.process
      return ({ engine with session := none }, poll.events ++ [false])

/-- Put the game's own code back and detach. It can be repeated, and it is what ends an engine's life. -/
def shutdown (engine : Engine π) (platform : Platform σ π) : Action σ (Engine π × List Bool) := do
  match engine.session with
  | none => return (engine, [])
  | some session =>
    platform.restore session
    return ({ engine with session := none }, [false])

end Engine

end LoadRemover
