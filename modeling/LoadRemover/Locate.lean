import LoadRemover.Install
import LoadRemover.Preamble

/-!
# Finding the game

A process is accepted as the game if it is a living 32-bit process of a known build whose code at every site is the
code of this build, so it is neither patched already nor still encrypted. `findTarget` takes the first accepted one
among the processes whose name fits.
-/

namespace LoadRemover

/-- A process that was accepted. -/
structure Candidate (π : Type) where
  process : π
  build : Build
  moduleBase : UInt32
  /-- The code at the sites, in the order of `Site.all`. -/
  snapshots : List Snapshot

namespace Platform

variable {σ π : Type}

/-- The known build, if any, whose signature the module at `moduleBase` has. -/
def detectBuild (platform : Platform σ π) (process : π) (moduleBase : UInt32) : Attempt σ (Option Build) := do
  let signature ← platform.readWord process (moduleBase + Build.signatureOffset)
  let build := Build.ofSignature? signature
  match build with
  | some b => Attempt.report (.knownSignature signature b.name)
  | none => Attempt.report (.unknownSignature signature)
  return build

/-- The code of the given sites, if each holds the code that `build` has there. -/
def snapshots (platform : Platform σ π) (process : π) (build : Build) (moduleBase : UInt32) :
    List Site → Attempt σ (Option (List Snapshot))
  | [] => return some []
  | site :: rest => do
    let code := preamble site build moduleBase
    if ← platform.holdsCode process code then
      return (← platform.snapshots process build moduleBase rest).map (⟨site, code⟩ :: ·)
    else
      Attempt.report (.entryMismatch (platform.pid process) site code.base)
      return none

/-- Look whether an open process is the game. It stays open only if it is. -/
def probe (platform : Platform σ π) (process : π) : Attempt σ (Option (Candidate π)) :=
  ExceptT.mk do
    let outcome ← examine.outcome
    unless outcome matches .ok (some _) do platform.close process
    return outcome
where
  examine : Attempt σ (Option (Candidate π)) := do
    if ← platform.hasExited process then
      Attempt.report (.ended (platform.pid process))
      return none
    if ← platform.is64Bit process then
      Attempt.report (.is64Bit (platform.pid process))
      return none
    let moduleBase ← platform.moduleBase process
    let some build ← platform.detectBuild process moduleBase
      | Attempt.report (.unknownBuild (platform.pid process))
        return none
    let some snapshots ← platform.snapshots process build moduleBase Site.all
      | return none
    return some { process, build, moduleBase, snapshots }

/-- Open a listed process and look whether it is the game; a failure means that it is not. -/
def openAndProbe (platform : Platform σ π) (info : ProcessInfo) : Action σ (Option (Candidate π)) := do
  match ← (do platform.probe (← platform.openProcess info) : Attempt σ _).outcome with
  | .ok candidate => return candidate
  | .error failure =>
    .report (.rejected info.name info.pid failure)
    return none

def firstCandidate (platform : Platform σ π) : List ProcessInfo → Action σ (Option (Candidate π))
  | [] => return none
  | info :: rest => do
    match ← platform.openAndProbe info with
    | some candidate => return some candidate
    | none => platform.firstCandidate rest

/-- The first living process that is the game and whose name contains `name`. -/
def findTarget (platform : Platform σ π) (name : String) : Action σ (Option (Candidate π)) := do
  match ← platform.processes.outcome with
  | .ok infos => platform.firstCandidate (infos.filter (·.nameContains name))
  | .error failure =>
    .report (.listingFailed failure)
    return none

end Platform

end LoadRemover
