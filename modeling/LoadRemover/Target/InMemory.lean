import LoadRemover.Preamble
import LoadRemover.Target.Platform
import LoadRemover.Target.Region

/-!
# Processes kept in memory

Stand-ins for real processes. An `InMemory.Target` has regions mapped from the start and blocks that were allocated
later; it can be made to end, to refuse reads and to refuse certain writes. A `World` is a list of such processes,
some of which are listed, and `World.platform` gives access to them.
-/

namespace LoadRemover.InMemory

/-- A process of 32 bits, as far as it can be observed. -/
structure Target where
  info : ProcessInfo
  is64Bit : Bool := false
  moduleBase : UInt32 := 0
  mapped : List Region := []
  /-- The blocks allocated and not released yet, in the order of their allocation. -/
  blocks : List Region := []
  nextBlock : Nat := 0x1000000
  exited : Bool := false
  refuseReads : Bool := false
  /-- The writes to refuse: each is refused when so many writes have succeeded. -/
  refusedWrites : List Nat := []
  writes : Nat := 0

namespace Target

/-! ### Memory -/

/-- The memory, in the order in which it is searched. -/
def regions (target : Target) : List Region := target.mapped ++ target.blocks

/-- The `n` bytes from `address` on, if one region holds them all. -/
def peek? (target : Target) (address : UInt32) (n : Nat) : Option Bytes :=
  (target.regions.find? (·.covers address.toNat n)).map (·.read address.toNat n)

/-- Put bytes at `address`, if one region holds all of the range. -/
def poke? (target : Target) (address : UInt32) (bytes : Bytes) : Option Target :=
  let put (regions : List Region) : Option (List Region) := do
    let i ← regions.findIdx? (·.covers address.toNat bytes.length)
    return regions.modify i (·.write address.toNat bytes)
  match put target.mapped with
  | some mapped => some { target with mapped }
  | none => (put target.blocks).map fun blocks => { target with blocks }

def isAllocated (target : Target) (address : UInt32) : Bool :=
  target.blocks.any (·.base == address.toNat)

/-! ### Access as a debugger has it -/

def read (target : Target) (address : UInt32) (n : Nat) : Except Failure Bytes :=
  if target.exited then
    .error (.reading address "process has exited")
  else if target.refuseReads then
    .error (.reading address "injected read failure")
  else
    match target.peek? address n with
    | some bytes => .ok bytes
    | none => .error (.reading address "unmapped")

/-- Write memory. A refusal is used up by the write that it refuses. -/
def write (target : Target) (address : UInt32) (bytes : Bytes) : Except Failure Unit × Target :=
  if target.exited then
    (.error (.writing address "process has exited"), target)
  else if target.writes ∈ target.refusedWrites then
    (.error (.writing address "injected write failure"),
      { target with refusedWrites := target.refusedWrites.erase target.writes })
  else
    match target.poke? address bytes with
    | some target => (.ok (), { target with writes := target.writes + 1 })
    | none => (.error (.writing address "unmapped"), target)

/-- The unit in which addresses are handed out. -/
def pageSize : Nat := 0x1000

/-- Allocate a block of zeros. Addresses are handed out once, in pages. -/
def allocate (target : Target) (size : Nat) : Except Failure UInt32 × Target :=
  if target.exited then
    (.error (.allocating size "process has exited"), target)
  else
    (.ok (UInt32.ofNat target.nextBlock),
      { target with
        blocks := target.blocks ++ [.zeros target.nextBlock size]
        nextBlock := target.nextBlock + max 1 ((size % 0x100000000 + pageSize - 1) / pageSize) * pageSize })

def free (target : Target) (address : UInt32) : Except Failure Unit × Target :=
  if target.isAllocated address then
    (.ok (), { target with blocks := target.blocks.eraseP (·.base == address.toNat) })
  else
    (.error (.freeing address "not an allocation"), target)

/-! ### Making and disturbing a process -/

def map (target : Target) (region : Region) : Target :=
  { target with mapped := target.mapped ++ [region] }

def mapModule (target : Target) (base : UInt32) (size : Nat) : Target :=
  { target with moduleBase := base }.map (.zeros base.toNat size)

def kill (target : Target) : Target := { target with exited := true }

/-- Refuse the write that comes after `n` more have succeeded. -/
def refuseWrite (target : Target) (n : Nat) : Target :=
  { target with refusedWrites := target.refusedWrites ++ [target.writes + n] }

end Target

/-- A direct access to memory that is not mapped. -/
structure Unmapped where
  access : String
  address : UInt32
deriving DecidableEq

def Unmapped.message (unmapped : Unmapped) : String :=
  s!"{unmapped.access} outside mapped memory at {hex unmapped.address.toNat}"

/-- A process that was opened. -/
structure Handle where
  slot : Nat
  pid : UInt32
deriving DecidableEq

/-- Some processes, and which of them a listing can show. -/
structure World where
  targets : List Target := []
  listed : List Nat := []
  refuseListing : Bool := false

namespace World

/-- What stands for a process that does not exist: one that has ended. -/
def absent : Target := { info := ⟨0, ""⟩, exited := true }

def target (world : World) (slot : Nat) : Target := world.targets.getD slot absent

def setTarget (world : World) (slot : Nat) (target : Target) : World :=
  { world with targets := world.targets.set slot target }

def handle (world : World) (slot : Nat) : Handle := ⟨slot, (world.target slot).info.pid⟩

def add (world : World) (target : Target) (hidden : Bool) : World :=
  { world with
    targets := world.targets ++ [target]
    listed := if hidden then world.listed else world.listed ++ [world.targets.length] }

def living (world : World) : List Nat := world.listed.filter fun slot => !(world.target slot).exited

/-- Put a byte at the start of a block, as the code in this block does: the process is the first with the given
number that has a block there. -/
def storeFlag (world : World) (pid : UInt32) (address : UInt32) (value : UInt8) : World :=
  match world.targets.findIdx? fun t => t.info.pid == pid && t.isAllocated address with
  | none => world
  | some slot => world.setTarget slot (((world.target slot).poke? address [value]).getD (world.target slot))

def platform : Platform World Handle where
  processes := .onWorld fun world =>
    (if world.refuseListing then .error (.listing "injected failure")
      else .ok (world.living.map fun slot => (world.target slot).info), world)
  openProcess info := .onWorld fun world =>
    (match world.living.find? fun slot => (world.target slot).info.pid == info.pid with
      | some slot => .ok (world.handle slot)
      | none => .error (.opening info.pid "no such process"), world)
  close _ := return ()
  pid handle := handle.pid
  hasExited handle := .onWorld fun world => ((world.target handle.slot).exited, world)
  is64Bit handle := .onWorld fun world => (.ok (world.target handle.slot).is64Bit, world)
  moduleBase handle := .onWorld fun world =>
    let target := world.target handle.slot
    (if target.exited then .error .exited else .ok target.moduleBase, world)
  read handle address n := .onWorld fun world => ((world.target handle.slot).read address n, world)
  write handle address bytes := onTarget handle (·.write address bytes)
  allocate handle size := onTarget handle (·.allocate size)
  free handle address := onTarget handle (·.free address)
where
  onTarget {α : Type} (handle : Handle) (f : Target → Except Failure α × Target) : Attempt World α :=
    .onWorld fun world =>
      let (result, target) := f (world.target handle.slot)
      (result, world.setTarget handle.slot target)

end World

end LoadRemover.InMemory
