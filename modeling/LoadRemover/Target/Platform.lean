import LoadRemover.Action
import LoadRemover.Bytes

/-!
# Access to processes

A `Platform` lists the processes of a machine and gives access to one of them through a handle. Everything that
finds, patches and watches the game is written over a platform, so it can be used with any kind of process.
-/

namespace LoadRemover

/-- A process as a listing shows it. -/
structure ProcessInfo where
  pid : UInt32
  name : String
deriving DecidableEq

/-- `c` in lower case, if it is one of the 26 letters of the Latin alphabet. -/
def foldLetter (c : Char) : Char :=
  if 'A' ≤ c ∧ c ≤ 'Z' then Char.ofNat (c.toNat + 32) else c

def occursIn (needle : List Char) : List Char → Bool
  | [] => needle.isEmpty
  | c :: text => needle.isPrefixOf (c :: text) || occursIn needle text

/-- Whether the name contains a text, the case of Latin letters aside. -/
def ProcessInfo.nameContains (info : ProcessInfo) (needle : String) : Bool :=
  occursIn (needle.toList.map foldLetter) (info.name.toList.map foldLetter)

/-- Access to the processes of a world `σ` through handles `π`. -/
structure Platform (σ π : Type) where
  processes : Attempt σ (List ProcessInfo)
  openProcess : ProcessInfo → Attempt σ π
  close : π → Action σ Unit
  pid : π → UInt32
  hasExited : π → Action σ Bool
  is64Bit : π → Attempt σ Bool
  moduleBase : π → Attempt σ UInt32
  read : π → UInt32 → Nat → Attempt σ Bytes
  write : π → UInt32 → Bytes → Attempt σ Unit
  allocate : π → Nat → Attempt σ UInt32
  free : π → UInt32 → Attempt σ Unit

namespace Platform

variable {σ π : Type}

def readByte (platform : Platform σ π) (process : π) (address : UInt32) : Attempt σ UInt8 :=
  return (← platform.read process address 1).headD 0

def readWord (platform : Platform σ π) (process : π) (address : UInt32) : Attempt σ UInt32 :=
  return (← platform.read process address 4).word

end Platform

end LoadRemover
