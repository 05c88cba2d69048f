import LoadRemover.Hex
import LoadRemover.Preamble
import LoadRemover.Schedule
import LoadRemover.Target.Region
import LoadRemover.Text.Utf16
import LoadRemover.Windows.Api

/-!
# A simulated Windows

An implementation of the Windows functions over processes kept in memory. It records every call, and a schedule can
make calls fail or transfer too few bytes. Protection belongs to whole regions.
-/

namespace LoadRemover.Windows.Simulation

/-- A region and its protection. -/
structure Mapping extends Region where
  protection : UInt32
  isAllocation : Bool := false

/-- A process. -/
structure SimulatedProcess where
  pid : UInt32
  name : List UInt16
  exitCode : UInt32 := stillActive
  isWow64 : Bool := true
  moduleBase : UInt64 := 0
  nextAllocation : Nat := 0x1000000
  mappings : List Mapping := []

namespace SimulatedProcess

def exited (p : SimulatedProcess) : Bool := p.exitCode != stillActive

def mapping? (p : SimulatedProcess) (address size : Nat) : Option Mapping :=
  p.mappings.find? (·.covers address size)

def modifyMapping (p : SimulatedProcess) (address size : Nat) (f : Mapping → Mapping) : SimulatedProcess :=
  match p.mappings.findIdx? (·.covers address size) with
  | some i => { p with mappings := p.mappings.modify i f }
  | none => p

/-- Put bytes at an address, whatever its protection. -/
def store (p : SimulatedProcess) (address : Nat) (bytes : Bytes) : SimulatedProcess :=
  p.modifyMapping address bytes.length fun m => { m with toRegion := m.toRegion.write address bytes }

def allocations (p : SimulatedProcess) : List Nat := (p.mappings.filter (·.isAllocation)).map (·.base)

def addImage (p : SimulatedProcess) (build : Build) : SimulatedProcess :=
  let base := p.moduleBase
  let image : Mapping := { toRegion := .zeros base.toNat Build.imageSize, protection := 0x20 }
  (build.imageParts base.toUInt32).foldl (fun p (offset, bytes) => p.store (base.toNat + offset.toNat) bytes)
    { p with mappings := p.mappings ++ [image] }

end SimulatedProcess

/-- The functions, as faults and records name them. -/
inductive Function where
  | createSnapshot | firstProcess | nextProcess | firstModule | openProcess | closeHandle | exitCode | isWow64
  | readMemory | writeMemory | flushInstructions | protect | allocate | free
deriving DecidableEq

namespace Function

def all : List Function := [createSnapshot, firstProcess, nextProcess, firstModule, openProcess, closeHandle, exitCode,
  isWow64, readMemory, writeMemory, flushInstructions, protect, allocate, free]

def name : Function → String
  | createSnapshot => "CreateToolhelp32Snapshot"
  | firstProcess => "Process32FirstW"
  | nextProcess => "Process32NextW"
  | firstModule => "Module32FirstW"
  | openProcess => "OpenProcess"
  | closeHandle => "CloseHandle"
  | exitCode => "GetExitCodeProcess"
  | isWow64 => "IsWow64Process"
  | readMemory => "ReadProcessMemory"
  | writeMemory => "WriteProcessMemory"
  | flushInstructions => "FlushInstructionCache"
  | protect => "VirtualProtectEx"
  | allocate => "VirtualAllocEx"
  | free => "VirtualFreeEx"

/-- Whether the function transfers bytes, so that it can transfer too few. -/
def transfers : Function → Bool
  | readMemory | writeMemory => true
  | _ => false

end Function

/-- What a scheduled fault does to a call. -/
structure Effect where
  message : String
  /-- Instead of failing, transfer so many bytes too few. -/
  short : Option Nat := none

/-- What a handle stands for. -/
inductive Object where
  /-- A snapshot of the processes, with the number of processes gone through. -/
  | processSnapshot (position : Nat)
  | moduleSnapshot (slot : Nat)
  | process (slot : Nat)

/-- The whole system. -/
structure Machine where
  processes : List SimulatedProcess := []
  handles : List (Handle × Object) := []
  handlesGiven : Nat := 0
  schedule : Schedule Function Effect := []
  calls : List String := []

namespace Machine

def slot? (machine : Machine) (pid : UInt32) : Option Nat := machine.processes.findIdx? (·.pid == pid)

def process? (machine : Machine) (pid : UInt32) : Option SimulatedProcess :=
  machine.processes.find? (·.pid == pid)

/-- Whether any process with the given number, the first or a later one, has not ended. -/
def isRunning (machine : Machine) (pid : UInt32) : Bool := machine.processes.any fun p => p.pid == pid && !p.exited

def object? (machine : Machine) (handle : Handle) : Option Object :=
  (machine.handles.find? (·.1 = handle)).map (·.2)

def give (machine : Machine) (object : Object) : Handle × Machine :=
  let handle : Handle := ⟨4 * (machine.handlesGiven + 1)⟩
  (handle, { machine with
    handles := machine.handles ++ [(handle, object)]
    handlesGiven := machine.handlesGiven + 1 })

def modifyProcess (machine : Machine) (slot : Nat) (f : SimulatedProcess → SimulatedProcess) : Machine :=
  { machine with processes := machine.processes.modify slot f }

def modifyPid (machine : Machine) (pid : UInt32) (f : SimulatedProcess → SimulatedProcess) : Machine :=
  match machine.slot? pid with
  | some slot => machine.modifyProcess slot f
  | none => machine

end Machine

/-! ### Texts of failures -/

private def invalidHandle := "The handle is invalid."
private def invalidAddress := "Attempt to access invalid address."
private def noMoreFiles := "There are no more files."
private def partialCopy := "Only part of the memory request was completed."

variable {α : Type}

/-- Record a call, let the schedule disturb it, and carry it out with the number of bytes to leave untransferred. -/
def enter (function : Function) (arguments : List String) (act : Nat → Call Machine α) : Call Machine α := do
  modify fun m => { m with calls := m.calls ++ [function.name ++ "(" ++ ", ".intercalate arguments ++ ")"] }
  let effect ← modifyGet fun m =>
    let (effect, schedule) := m.schedule.meet function
    (effect, { m with schedule })
  match effect with
  | none => act 0
  | some effect =>
    match effect.short with
    | some n => if function.transfers then act n else throw effect.message
    | none => throw effect.message

def onProcess (handle : Handle) (act : Nat → SimulatedProcess → Call Machine α) : Call Machine α := do
  let machine ← get
  match machine.object? handle with
  | some (.process slot) =>
    match machine.processes[slot]? with
    | some p => act slot p
    | none => throw invalidHandle
  | _ => throw invalidHandle

def fill (snapshot : Handle) (entry : ProcessEntry) (position : Nat) : Call Machine ProcessEntry := do
  let machine ← get
  match machine.processes.zipIdx.find? fun (p, i) => position ≤ i && !p.exited with
  | none => throw noMoreFiles
  | some (p, i) =>
    set { machine with handles := machine.handles.map fun (h, object) =>
      if h = snapshot then (h, .processSnapshot (i + 1)) else (h, object) }
    let units := p.name.take entry.name.length
    let units := if units.length < entry.name.length then units ++ [0] else units
    return { pid := p.pid, name := units ++ entry.name.drop units.length }

private def range (handle : Handle) (address : UInt64) (size : Nat) : List String :=
  [hex handle.value, hex address.toNat, toString size]

def api : Api Machine where
  createSnapshot flags pid := enter .createSnapshot [hex flags.toNat, toString pid] fun _ => do
    let machine ← get
    if flags &&& 0x2 ≠ 0 then
      return (← modifyGet (·.give (.processSnapshot 0)))
    match machine.slot? pid with
    | some slot =>
      if !machine.isRunning pid then throw "Access is denied."
      return (← modifyGet (·.give (.moduleSnapshot slot)))
    | none => throw "Access is denied."
  firstProcess snapshot entry := enter .firstProcess [hex snapshot.value, "size ok: true"] fun _ => do
    match (← get).object? snapshot with
    | some (.processSnapshot _) => fill snapshot entry 0
    | _ => throw invalidHandle
  nextProcess snapshot entry := enter .nextProcess [hex snapshot.value, "size ok: true"] fun _ => do
    match (← get).object? snapshot with
    | some (.processSnapshot position) => fill snapshot entry position
    | _ => throw invalidHandle
  firstModule snapshot := enter .firstModule [hex snapshot.value, "size ok: true"] fun _ => do
    let machine ← get
    match machine.object? snapshot with
    | some (.moduleSnapshot slot) =>
      match machine.processes[slot]? with
      | some p => return p.moduleBase
      | none => throw noMoreFiles
    | _ => throw invalidHandle
  openProcess access inherit pid :=
    enter .openProcess [hex access.toNat, toString inherit, toString pid] fun _ => do
      match (← get).slot? pid with
      | some slot => return (← modifyGet (·.give (.process slot)))
      | none => throw "The parameter is incorrect."
  closeHandle handle := enter .closeHandle [hex handle.value] fun _ => do
    if ((← get).object? handle).isNone then throw invalidHandle
    modify fun m => { m with handles := m.handles.filter (·.1 ≠ handle) }
    return ()
  exitCode handle := enter .exitCode [hex handle.value] fun _ =>
    onProcess handle fun _ p => return p.exitCode
  isWow64 handle := enter .isWow64 [hex handle.value] fun _ =>
    onProcess handle fun _ p => return p.isWow64
  readMemory handle address size := enter .readMemory (range handle address size) fun short =>
    onProcess handle fun _ p => do
      match p.mapping? address.toNat size with
      | some m =>
        if p.exited then throw partialCopy
        return (m.read address.toNat (size - short))
      | none => throw partialCopy
  writeMemory handle address bytes := enter .writeMemory (range handle address bytes.length) fun short =>
    onProcess handle fun slot p => do
      match p.mapping? address.toNat bytes.length with
      | some m =>
        if p.exited then throw partialCopy
        if m.protection ≠ 0x40 ∧ m.protection ≠ 0x04 then throw "Invalid access to memory location."
        let bytes' := bytes.take (bytes.length - short)
        modify (·.modifyProcess slot fun p => p.modifyMapping address.toNat bytes.length fun m =>
          { m with toRegion := m.toRegion.write address.toNat bytes' })
        return bytes'.length
      | none => throw partialCopy
  flushInstructions handle address size := enter .flushInstructions (range handle address size) fun _ =>
    onProcess handle fun _ _ => return ()
  protect handle address size protection :=
    enter .protect (range handle address size ++ [hex protection.toNat]) fun _ =>
      onProcess handle fun slot p => do
        match p.mapping? address.toNat size with
        | some m =>
          modify (·.modifyProcess slot fun p => p.modifyMapping address.toNat size fun m => { m with protection })
          return m.protection
        | none => throw invalidAddress
  allocate handle size kind protection := do
    let block := enter .allocate
      [hex handle.value, "null", toString size, hex kind.toNat, hex protection.toNat] fun _ =>
        onProcess handle fun slot p => do
          if p.exited || size = 0 then throw ""
          let block : Mapping := { toRegion := .zeros p.nextAllocation size, protection, isAllocation := true }
          modify (·.modifyProcess slot fun p => { p with
            mappings := p.mappings ++ [block]
            nextAllocation := p.nextAllocation + (size + 0xFFFF) / 0x10000 * 0x10000 })
          return (UInt64.ofNat p.nextAllocation)
    return (← block.run).toOption.getD 0
  lastError _ := "Cannot allocate memory (os error 12)"
  free handle address size kind :=
    enter .free (range handle address size ++ [hex kind.toNat]) fun _ =>
      onProcess handle fun slot p => do
        if address.toNat ∉ p.allocations then throw invalidAddress
        modify (·.modifyProcess slot fun p =>
          { p with mappings := p.mappings.eraseP fun m => m.isAllocation && m.base == address.toNat })
        return ()

end LoadRemover.Windows.Simulation
