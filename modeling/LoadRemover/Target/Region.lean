import LoadRemover.Bytes

/-!
# Regions of memory

A stretch of addresses that holds bytes. The content is a function of the position, so a large region that is mostly
zero costs nothing.
-/

namespace LoadRemover

/-- `size` bytes from the address `base` on. -/
structure Region where
  base : Nat
  size : Nat
  content : Nat → UInt8

namespace Region

def zeros (base size : Nat) : Region := ⟨base, size, fun _ => 0⟩

def ofBytes (base : Nat) (bytes : Bytes) : Region := ⟨base, bytes.length, fun i => bytes.getD i 0⟩

/-- Whether all of `n` addresses from `address` on lie in the region. -/
def covers (region : Region) (address n : Nat) : Bool :=
  region.base ≤ address && address + n ≤ region.base + region.size

def read (region : Region) (address n : Nat) : Bytes :=
  (List.range n).map fun i => region.content (address - region.base + i)

def write (region : Region) (address : Nat) (bytes : Bytes) : Region :=
  let start := address - region.base
  { region with
    content := fun i => if start ≤ i ∧ i < start + bytes.length then bytes.getD (i - start) 0 else region.content i }

@[simp] theorem length_read (region : Region) (address n : Nat) : (region.read address n).length = n := by
  simp [read]

@[simp] theorem covers_write (region : Region) (address n start : Nat) (bytes : Bytes) :
    (region.write start bytes).covers address n = region.covers address n := rfl

theorem read_write (region : Region) (address : Nat) (bytes : Bytes) :
    (region.write address bytes).read address bytes.length = bytes := by
  apply List.ext_getElem
  · simp
  · intro i h₁ h₂
    simp only [read, write, List.getElem_map, List.getElem_range]
    rw [if_pos ⟨by omega, by omega⟩, Nat.add_sub_cancel_left, List.getD_eq_getElem?_getD,
      List.getElem?_eq_getElem h₂, Option.getD_some]

end Region

end LoadRemover
