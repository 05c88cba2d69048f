import LoadRemover.Bytes

/-!
# Fields that change when code moves

Four bytes of a code buffer may hold an address inside the buffer or a distance from the buffer to a fixed place.
Both must be corrected when the buffer moves; `Relocation.apply` corrects one of them.
-/

namespace LoadRemover

/-- How a field reacts to a move of the code that holds it. -/
inductive RelocationKind where
  /-- The address of something in the same code: it grows by the distance moved. -/
  | internal
  /-- The distance from the code to a fixed place: it shrinks by the distance moved. -/
  | external
deriving DecidableEq

/-- A field of four bytes at `offset` that has to be corrected on every move. -/
structure Relocation where
  offset : Nat
  kind : RelocationKind
deriving DecidableEq

namespace Relocation

def width : Nat := 4

/-- The field's new content after a move by `delta`, modulo `2 ^ 32`. -/
def adjust (r : Relocation) (delta field : UInt32) : UInt32 :=
  match r.kind with
  | .internal => field + delta
  | .external => field - delta

def apply (r : Relocation) (delta : UInt32) (bytes : Bytes) : Bytes :=
  bytes.overwrite r.offset (Bytes.littleEndian32 (r.adjust delta (bytes.slice r.offset width).word))

/-- The same field after `n` bytes were put in front of the code. -/
def shift (r : Relocation) (n : Nat) : Relocation :=
  { r with offset := n + r.offset }

end Relocation

end LoadRemover
