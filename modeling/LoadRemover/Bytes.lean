/-!
# Bytes and little-endian words

Machine code and process memory are lists of bytes, and a word is stored with its lowest byte first.
`Bytes.value_littleEndian32` says that a stored word reads back, and `Bytes.length_overwrite` that writing over a
part of a list that lies inside it keeps the length.
-/

namespace LoadRemover

/-- A run of bytes, in the order of their addresses. -/
abbrev Bytes := List UInt8

namespace Bytes

def littleEndian16 (w : UInt16) : Bytes :=
  [w.toUInt8, (w >>> 8).toUInt8]

def littleEndian32 (w : UInt32) : Bytes :=
  [w.toUInt8, (w >>> 8).toUInt8, (w >>> 16).toUInt8, (w >>> 24).toUInt8]

/-- The number whose base-256 digits, lowest first, are the bytes. -/
def value : Bytes → Nat
  | [] => 0
  | b :: bs => b.toNat + 256 * value bs

def word (bs : Bytes) : UInt32 := UInt32.ofNat bs.value

def slice (bs : Bytes) (i n : Nat) : Bytes := (bs.drop i).take n

/-- `bs` with the bytes from position `i` on replaced by `new`. -/
def overwrite (bs : Bytes) (i : Nat) (new : Bytes) : Bytes :=
  bs.take i ++ new ++ bs.drop (i + new.length)

@[simp] theorem length_littleEndian16 (w : UInt16) : (littleEndian16 w).length = 2 := rfl

@[simp] theorem length_littleEndian32 (w : UInt32) : (littleEndian32 w).length = 4 := rfl

theorem length_overwrite {bs new : Bytes} {i : Nat} (h : i + new.length ≤ bs.length) :
    (overwrite bs i new).length = bs.length := by
  simp only [overwrite, List.length_append, List.length_take, List.length_drop]
  omega

theorem value_littleEndian32 (w : UInt32) : value (littleEndian32 w) = w.toNat := by
  have h := w.toNat_lt
  simp [littleEndian32, value, Nat.shiftRight_eq_div_pow]
  omega

@[simp] theorem word_littleEndian32 (w : UInt32) : word (littleEndian32 w) = w := by
  simp [word, value_littleEndian32]

end Bytes

end LoadRemover
