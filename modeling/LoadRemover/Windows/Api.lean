import LoadRemover.Bytes

/-!
# The Windows functions for access to processes

The functions of the operating system that the Windows platform calls, as a record, so that the platform can be used
with any implementation of them. A call succeeds or fails with the system's text for the reason; only an allocation
tells its failure by an address of zero.
-/

namespace LoadRemover.Windows

/-- A handle of the operating system. -/
structure Handle where
  value : Nat
deriving DecidableEq

/-- The record that a process listing fills again and again: a number and 260 units for a name. -/
structure ProcessEntry where
  pid : UInt32 := 0
  name : List UInt16 := List.replicate 260 0

abbrev Call (σ : Type) : Type → Type := ExceptT String (StateM σ)

/-- The functions of the operating system. -/
structure Api (σ : Type) where
  createSnapshot (flags pid : UInt32) : Call σ Handle
  firstProcess (snapshot : Handle) (entry : ProcessEntry) : Call σ ProcessEntry
  nextProcess (snapshot : Handle) (entry : ProcessEntry) : Call σ ProcessEntry
  /-- The address of the first module of a snapshot, which is the program itself. -/
  firstModule (snapshot : Handle) : Call σ UInt64
  openProcess (access : UInt32) (inherit : Bool) (pid : UInt32) : Call σ Handle
  closeHandle (handle : Handle) : Call σ Unit
  exitCode (process : Handle) : Call σ UInt32
  /-- Whether a 32-bit process runs on a 64-bit system. -/
  isWow64 (process : Handle) : Call σ Bool
  /-- Read memory; the bytes read may be fewer than asked for. -/
  readMemory (process : Handle) (address : UInt64) (size : Nat) : Call σ Bytes
  writeMemory (process : Handle) (address : UInt64) (bytes : Bytes) : Call σ Nat
  flushInstructions (process : Handle) (address : UInt64) (size : Nat) : Call σ Unit
  protect (process : Handle) (address : UInt64) (size : Nat) (protection : UInt32) : Call σ UInt32
  /-- Allocate memory and tell its address, where zero stands for a failure. -/
  allocate (process : Handle) (size : Nat) (kind protection : UInt32) : StateM σ UInt64
  /-- The system's text for the reason of a failure that a function tells by zero. -/
  lastError : σ → String
  free (process : Handle) (address : UInt64) (size : Nat) (kind : UInt32) : Call σ Unit

/-! ### Values of flags -/

def snapshotProcesses : UInt32 := 0x2

/-- A snapshot of the 32-bit and 64-bit modules of a process. -/
def snapshotModules : UInt32 := 0x8 ||| 0x10

/-- The right to read and write memory, to change it and to query the process. -/
def accessRights : UInt32 := 0x10 ||| 0x20 ||| 0x8 ||| 0x400

def stillActive : UInt32 := 259

def executeReadWrite : UInt32 := 0x40

def commitReserve : UInt32 := 0x1000 ||| 0x2000

def releaseMemory : UInt32 := 0x8000

end LoadRemover.Windows
