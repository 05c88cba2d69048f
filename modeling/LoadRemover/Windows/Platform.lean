import LoadRemover.Target.Platform
import LoadRemover.Text.Utf16
import LoadRemover.Windows.Api

/-!
# Access to processes on Windows

The platform that uses the functions of a 64-bit Windows. Snapshots are closed where they are used; the handle of a
process is closed by whoever opened it. Memory is made writable for the time of a write, and the former protection is
set again before the outcome of the write is looked at.
-/

namespace LoadRemover.Windows

/-- A process that was opened. -/
structure OpenedProcess where
  handle : Handle
  pid : UInt32
deriving DecidableEq

def textOf (units : List UInt16) : String :=
  String.ofList (Utf16.decode (units.takeWhile (· != 0)))

def ProcessEntry.info (entry : ProcessEntry) : ProcessInfo := ⟨entry.pid, textOf entry.name⟩

def toAddress (address : UInt64) : Except Failure UInt32 :=
  if address.toNat < 0x100000000 then .ok address.toUInt32 else .error (.addressOutOfRange address)

variable {σ α : Type}

def call (f : Call σ α) : Action σ (Except String α) := .onWorld fun world => f.run world

def callOr (f : Call σ α) (failure : String → Failure) : Attempt σ α :=
  ExceptT.mk do
    return (← call f).mapError failure

def callAnyway (f : Call σ α) : Action σ Unit := do
  let _ ← call f

namespace Api

variable (api : Api σ)

/-- The processes that follow the one in `entry`, at most `n`. -/
def following (snapshot : Handle) : Nat → ProcessEntry → Action σ (List ProcessInfo)
  | 0, _ => return []
  | n + 1, entry => do
    match ← call (api.nextProcess snapshot entry) with
    | .error _ => return []
    | .ok entry => return entry.info :: (← following snapshot n entry)

/-- The processes of a snapshot, up to the first record that cannot be filled. The next record is asked for at most
`limit` times. -/
def enumerate (limit : Nat) (snapshot : Handle) : Action σ (List ProcessInfo) := do
  match ← call (api.firstProcess snapshot {}) with
  | .error _ => return []
  | .ok entry => return entry.info :: (← api.following snapshot limit entry)

def processes (limit : Nat) : Attempt σ (List ProcessInfo) := do
  let snapshot ← callOr (api.createSnapshot snapshotProcesses 0) .listing
  let infos ← ExceptT.lift (api.enumerate limit snapshot)
  ExceptT.lift (callAnyway (api.closeHandle snapshot))
  return infos

def openPid (pid : UInt32) : Attempt σ OpenedProcess := do
  return ⟨← callOr (api.openProcess accessRights false pid) (.opening pid), pid⟩

def moduleBase (process : OpenedProcess) : Attempt σ UInt32 := do
  let snapshot ← callOr (api.createSnapshot snapshotModules process.pid) (.opening process.pid)
  ExceptT.mk do
    let base ← (callOr (api.firstModule snapshot) (.opening process.pid)).outcome
    callAnyway (api.closeHandle snapshot)
    return base.bind toAddress

def read (process : OpenedProcess) (address : UInt32) (n : Nat) : Attempt σ Bytes := do
  let bytes ← callOr (api.readMemory process.handle address.toUInt64 n) (.reading address)
  if bytes.length ≠ n then
    throw (.reading address s!"partial read ({bytes.length} of {n} bytes)")
  return bytes

/-- Write memory, also where it is protected. -/
def write (process : OpenedProcess) (address : UInt32) (bytes : Bytes) : Attempt σ Unit := do
  let target := address.toUInt64
  let size := bytes.length
  let former ← ExceptT.lift (call (api.protect process.handle target size executeReadWrite))
  let written ← ExceptT.lift (call (api.writeMemory process.handle target bytes))
  if let .ok protection := former then
    ExceptT.lift (callAnyway (api.protect process.handle target size protection))
  match written with
  | .error reason => throw (.writing address reason)
  | .ok n =>
    if n ≠ size then
      throw (.writing address s!"partial write ({n} of {size} bytes)")
  if let .error reason ← ExceptT.lift (call (api.flushInstructions process.handle target size)) then
    Attempt.report (.flushFailed address reason)

/-- Allocate memory for code. A block above the 32-bit range is given back, one at zero counts as a failure. -/
def allocateBlock (process : OpenedProcess) (size : Nat) : Attempt σ UInt32 := do
  let block ← ExceptT.lift (Action.onWorld fun world =>
    api.allocate process.handle size commitReserve executeReadWrite world)
  if block = 0 then
    throw (.allocating size (api.lastError (← get).world))
  match toAddress block with
  | .ok address => return address
  | .error failure =>
    if let .error reason ← ExceptT.lift (call (api.free process.handle block 0 releaseMemory)) then
      Attempt.report (.blockNotReleased reason)
    throw failure

end Api

/-- The platform over the given functions. A listing of up to `limit` processes is complete; if nothing else is said,
`limit` is the number of process numbers that there are. -/
def platform (api : Api σ) (limit : Nat := 0x100000000) : Platform σ OpenedProcess where
  processes := api.processes limit
  openProcess info := api.openPid info.pid
  close process := callAnyway (api.closeHandle process.handle)
  pid process := process.pid
  hasExited process := do
    match ← call (api.exitCode process.handle) with
    | .ok code => return code != stillActive
    | .error _ => return true
  is64Bit process := return !(← callOr (api.isWow64 process.handle) (.opening process.pid))
  moduleBase process := api.moduleBase process
  read process address n := api.read process address n
  write process address bytes := api.write process address bytes
  allocate process size := api.allocateBlock process size
  free process address := callOr (api.free process.handle address.toUInt64 0 releaseMemory) (.freeing address)

end LoadRemover.Windows
