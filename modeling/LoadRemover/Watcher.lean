import LoadRemover.Target.Platform

/-!
# Watching values in memory

A `Watched` value remembers what was last read at one address, and reading it again tells whether it changed. The
first reading only records the value. A list of watched values is read in order, up to the first failure.
-/

namespace LoadRemover

/-- How a value of type `α` is stored. -/
structure Layout (α : Type) where
  width : Nat
  decode : Bytes → α

def Layout.byte : Layout UInt8 where
  width := 1
  decode bytes := bytes.headD 0

/-- The integer types that can be watched. -/
inductive IntegerType where
  | u8 | i8 | u16 | i16 | u32 | i32
deriving DecidableEq

namespace IntegerType

def width : IntegerType → Nat
  | u8 | i8 => 1
  | u16 | i16 => 2
  | u32 | i32 => 4

def isSigned : IntegerType → Bool
  | i8 | i16 | i32 => true
  | u8 | u16 | u32 => false

/-- Little-endian, and in two's complement if signed. -/
def layout (type : IntegerType) : Layout Int where
  width := type.width
  decode bytes :=
    let n : Int := Bytes.value (bytes.take type.width)
    if type.isSigned then n.bmod (Nat.pow 256 type.width) else n

end IntegerType

/-- A change between two consecutive readings. -/
structure Change (α : Type) where
  old : α
  new : α
deriving DecidableEq

/-- An address and the value last read there, if it was read. -/
structure Watched (α : Type) where
  address : UInt32
  current : Option α := none
deriving DecidableEq

namespace Watched

variable {σ π α : Type} [DecidableEq α]

/-- Take in a value read; the second part is the change, if it is one. -/
def observe (watched : Watched α) (value : α) : Watched α × Option (Change α) :=
  ({ watched with current := some value },
    match watched.current with
    | some old => if old = value then none else some ⟨old, value⟩
    | none => none)

def update (platform : Platform σ π) (process : π) (layout : Layout α) (watched : Watched α) :
    Attempt σ (Watched α × Option (Change α)) := do
  return watched.observe (layout.decode (← platform.read process watched.address layout.width))

end Watched

/-- Watched values with their keys, in the order in which they are read. -/
abbrev WatchList (κ α : Type) := List (κ × Watched α)

/-- What reading a list of values gave. -/
structure Sweep (κ α : Type) where
  list : WatchList κ α
  changes : List (κ × Change α)
  failure : Option Failure

namespace WatchList

variable {σ π κ α : Type} [DecidableEq κ] [DecidableEq α]

def add (list : WatchList κ α) (key : κ) (address : UInt32) : WatchList κ α :=
  list ++ [(key, { address := address })]

def get? (list : WatchList κ α) (key : κ) : Option (Watched α) :=
  (list.find? (·.1 = key)).map (·.2)

/-- Read all values in order, up to the first that cannot be read. -/
def updateAll (platform : Platform σ π) (process : π) (layout : Layout α) : WatchList κ α → Action σ (Sweep κ α)
  | [] => return ⟨[], [], none⟩
  | (key, watched) :: rest => do
    match ← (watched.update platform process layout).outcome with
    | .error failure => return ⟨(key, watched) :: rest, [], some failure⟩
    | .ok (watched, change) =>
      let sweep ← updateAll platform process layout rest
      return ⟨(key, watched) :: sweep.list, (change.map (key, ·)).toList ++ sweep.changes, sweep.failure⟩

end WatchList

end LoadRemover
