import LoadRemover.Code.Relocation

/-!
# Code buffers

A `Code` is machine code encoded for one load address, its `base`, together with the fields that depend on this
address. Code grows at its end only, so the size of the code before an insertion serves as the label of what is
inserted. A buffer moves as a whole (`Code.moveTo`) and takes in another one (`Code.merge`), which is moved to the
place that it gets.
-/

namespace LoadRemover

/-- Bytes to be added to a buffer, and the fields among them that depend on the load address. -/
structure Fragment where
  bytes : Bytes
  /-- The fields, with offsets from the first byte of the fragment. -/
  relocations : List Relocation := []

/-- Machine code encoded for the load address `base`. -/
structure Code where
  base : UInt32 := 0
  bytes : Bytes := []
  /-- The fields that a move has to correct, in the order in which they were added. -/
  relocations : List Relocation := []
deriving DecidableEq

namespace Code

def unplaced : UInt32 := 0

def empty : Code := {}

def emptyAt (base : UInt32) : Code := { base }

def isPlaced (code : Code) : Bool := code.base != unplaced

/-- The number of bytes, which is the label of whatever is added next. -/
def size (code : Code) : Nat := code.bytes.length

def address (code : Code) (label : Nat) : UInt32 := code.base + UInt32.ofNat label

def endAddress (code : Code) : UInt32 := code.address code.size

/-- The bytes after a move by `delta`: every field is corrected. -/
def movedBytes (code : Code) (delta : UInt32) : Bytes :=
  code.relocations.foldl (fun bytes r => r.apply delta bytes) code.bytes

def moveTo (code : Code) (base : UInt32) : Code :=
  { code with base, bytes := code.movedBytes (base - code.base) }

def append (code : Code) (fragment : Fragment) : Code :=
  { code with
    bytes := code.bytes ++ fragment.bytes
    relocations := code.relocations ++ fragment.relocations.map (·.shift code.size) }

def data (code : Code) (bytes : Bytes) : Code := code.append { bytes }

/-- Add another buffer at the end, moved to the address at which it comes to lie. -/
def merge (code child : Code) : Code :=
  code.append ⟨(child.moveTo code.endAddress).bytes, child.relocations⟩

@[simp] theorem moveTo_base (code : Code) (base : UInt32) : (code.moveTo base).base = base := rfl

@[simp] theorem moveTo_relocations (code : Code) (base : UInt32) :
    (code.moveTo base).relocations = code.relocations := rfl

@[simp] theorem append_base (code : Code) (fragment : Fragment) : (code.append fragment).base = code.base := rfl

@[simp] theorem size_append (code : Code) (fragment : Fragment) :
    (code.append fragment).size = code.size + fragment.bytes.length := by
  simp [append, size]

end Code

end LoadRemover
