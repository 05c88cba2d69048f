import LoadRemover.Failure
import LoadRemover.Site

/-!
# Diagnostics

What the library reports about its work, beside its results. Each diagnostic has a level, an origin by which it can
be filtered, and a text.
-/

namespace LoadRemover

/-- How much a diagnostic matters, most important first. -/
inductive Level where
  | error | warn | info | debug | trace
deriving DecidableEq

namespace Level

def name : Level → String
  | error => "ERROR" | warn => "WARN" | info => "INFO" | debug => "DEBUG" | trace => "TRACE"

def rank : Level → Nat
  | error => 1 | warn => 2 | info => 3 | debug => 4 | trace => 5

end Level

/-- Something worth reporting. -/
inductive Diagnostic where
  | ended (pid : UInt32)
  | is64Bit (pid : UInt32)
  | knownSignature (signature : UInt32) (build : String)
  | unknownSignature (signature : UInt32)
  | unknownBuild (pid : UInt32)
  /-- The code at a site is not the unpatched code of the build. -/
  | entryMismatch (pid : UInt32) (site : Site) (address : UInt32)
  | listingFailed (failure : Failure)
  | rejected (name : String) (pid : UInt32) (failure : Failure)
  | installed (size : Nat) (address : UInt32)
  /-- A block could not be released after its content could not be written. -/
  | releaseFailed (address : UInt32) (failure : Failure)
  | redirected (site : Site) (address wrapper : UInt32)
  | flagChanged (input : Input) (old new : UInt8)
  | restoreFailed (site : Site) (failure : Failure)
  | headKept (head : UInt32)
  | headNotFreed (head : UInt32) (failure : Failure)
  | nothingToRestore (pid : UInt32)
  | restored (pid : UInt32)
  | partiallyRestored (pid : UInt32)
  | hooked (pid : UInt32) (build : String) (moduleBase head : UInt32)
  | hookFailed (pid : UInt32) (failure : Failure)
  | lost (failure : Failure)
  | detached (failure : Failure)
  | flushFailed (address : UInt32) (reason : String)
  | blockNotReleased (reason : String)

namespace Diagnostic

def level : Diagnostic → Level
  | restored .. | hooked .. | lost .. => .info
  | restoreFailed .. | headKept .. | partiallyRestored .. | hookFailed .. | detached .. => .warn
  | _ => .debug

/-- The part of the library that reports it, as filters name it. -/
def origin : Diagnostic → String
  | ended .. | is64Bit .. | unknownBuild .. | entryMismatch .. | listingFailed .. | rejected .. => "loadwatch::locate"
  | knownSignature .. | unknownSignature .. => "loadwatch::variant"
  | installed .. | releaseFailed .. => "loadwatch::install"
  | redirected .. | flagChanged .. | restoreFailed .. | headKept .. | headNotFreed .. | nothingToRestore ..
  | restored .. | partiallyRestored .. => "loadwatch::hooks::session"
  | hooked .. | hookFailed .. | lost .. | detached .. => "loadwatch::hooks"
  | flushFailed .. | blockNotReleased .. => "loadwatch::memory::win32"

def message : Diagnostic → String
  | ended pid => s!"Process {pid} has exited"
  | is64Bit pid => s!"Process {pid} is 64-bit"
  | knownSignature signature build => s!"Build signature {hexWord signature.toNat}: {build}"
  | unknownSignature signature => s!"Unknown build signature {hexWord signature.toNat}"
  | unknownBuild pid => s!"Process {pid} is not a known build"
  | entryMismatch pid site address => s!"Process {pid}: {site.name} entry at {hex address.toNat} does not match"
  | listingFailed failure => s!"Process listing failed: {failure.message}"
  | rejected name pid failure => s!"Rejected {name} ({pid}): {failure.message}"
  | installed size address => s!"Installed {size} bytes at {hex address.toNat}"
  | releaseFailed address failure => s!"Failed to free {hex address.toNat} after write failure: {failure.message}"
  | redirected site address wrapper => s!"Redirected {site.name} at {hex address.toNat} to {hex wrapper.toNat}"
  | flagChanged input old new => s!"{input.name} flag {old} -> {new}"
  | restoreFailed site failure => s!"Failed to restore {site.name} entry: {failure.message}"
  | headKept head => s!"Keeping head block at {hex head.toNat} for unrestored sites"
  | headNotFreed head failure => s!"Failed to free head block at {hex head.toNat}: {failure.message}"
  | nothingToRestore pid => s!"Process {pid} exited, nothing to restore"
  | restored pid => s!"Restored process {pid}"
  | partiallyRestored pid => s!"Process {pid} was only partially restored"
  | hooked pid build moduleBase head =>
    s!"Hooked process {pid} ({build} build, module {hex moduleBase.toNat}, head {hex head.toNat})"
  | hookFailed pid failure => s!"Failed to hook process {pid}: {failure.message}"
  | lost failure => s!"Lost target process: {failure.message}"
  | detached failure => s!"Detaching after unexpected error: {failure.message}"
  | flushFailed address reason => s!"FlushInstructionCache failed at {hex address.toNat}: {reason}"
  | blockNotReleased reason => s!"Failed to release unaddressable block: {reason}"

end Diagnostic

end LoadRemover
