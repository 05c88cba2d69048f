import Mathlib.Logic.Function.Basic
import LoadRemover.Proofs.Journal

/-!
# Processes seen from outside

An `Image` is what can be told of a process from outside: its memory, where some is mapped, and the blocks that were
allocated in it. A platform `Shows` images if it reads and writes its processes as they are, with one reservation: any
access may fail, and a write that fails may have stored the first of its bytes.

A patched image has one more block and is changed at some addresses (`Image.Patched`). Putting back the bytes that were
read there makes fewer of them (`Image.Patched.put_back`); when there are none left, releasing the block brings back
the image of before (`Image.Patched.release_eq`).
-/

namespace LoadRemover

open X86

instance {address a : UInt32} {n : Nat} : Decidable (Within address n a) := inferInstanceAs (Decidable (_ < n))

/-- A process seen from outside. -/
@[ext] structure Image where
  is64Bit : Bool := false
  moduleBase : UInt32 := 0
  /-- The bytes of the memory that is mapped. -/
  memory : UInt32 → Option UInt8
  /-- The sizes of the blocks that are allocated, by their addresses. -/
  blocks : UInt32 → Option Nat := fun _ => none

namespace Image

/-! ### Accesses -/

/-- The `n` bytes from `address` on, if all of them are mapped. -/
def read? (image : Image) (address : UInt32) (n : Nat) : Option Bytes :=
  if ∀ i < n, (image.memory (address + UInt32.ofNat i)).isSome = true then
    some ((List.range n).map fun i => (image.memory (address + UInt32.ofNat i)).getD 0)
  else none

/-- Put bytes at `address`, where there is memory for them. -/
def store (image : Image) (address : UInt32) (bytes : Bytes) : Image :=
  { image with memory := fun a => (image.memory a).map (bytes.getD (a - address).toNat) }

/-- There is neither memory nor a block at the `n` addresses from `base` on. -/
structure Free (image : Image) (base : UInt32) (n : Nat) : Prop where
  memory : ∀ a, Within base n a → image.memory a = none
  blocks : image.blocks base = none

/-- Add a block of zeros. -/
def allocate (image : Image) (base : UInt32) (n : Nat) : Image :=
  { image with
    memory := fun a => if Within base n a then some 0 else image.memory a
    blocks := Function.update image.blocks base (some n) }

def release (image : Image) (base : UInt32) : Image :=
  match image.blocks base with
  | some n =>
    { image with
      memory := fun a => if Within base n a then none else image.memory a
      blocks := Function.update image.blocks base none }
  | none => image

variable {image before : Image} {address base a : UInt32} {n k : Nat} {bytes : Bytes}

private theorem memory_of_read? (h : image.read? address n = some bytes) (ha : Within address n a) :
    image.memory a = bytes[(a - address).toNat]? := by
  unfold read? at h
  split at h
  · rename_i hmapped
    obtain ⟨i, hi, hlt, rfl⟩ := ha.exists
    have hsub : (address + UInt32.ofNat i - address).toNat = i := by
      have : address + UInt32.ofNat i - address = UInt32.ofNat i := by grind
      rw [this, UInt32.toNat_ofNat_of_lt' hlt]
    obtain ⟨b, hb⟩ := Option.isSome_iff_exists.1 (hmapped i hi)
    rw [← Option.some.inj h, hsub, List.getElem?_map, List.getElem?_range hi, hb, Option.map_some, hb, Option.getD_some]
  · cases h

private theorem read?_congr {image' : Image} (h : ∀ i < n, image'.memory (address + UInt32.ofNat i) =
    image.memory (address + UInt32.ofNat i)) : image'.read? address n = image.read? address n := by
  have hmapped : (∀ i < n, (image'.memory (address + UInt32.ofNat i)).isSome = true) ↔
      ∀ i < n, (image.memory (address + UInt32.ofNat i)).isSome = true :=
    forall₂_congr fun i hi => by rw [h i hi]
  unfold read?
  simp only [hmapped]
  congr 2
  exact List.map_congr_left fun i hi => by rw [h i (List.mem_range.1 hi)]

theorem isSome_read? (h : image.read? address n = some bytes) {i : Nat} (hi : i < n) :
    (image.memory (address + UInt32.ofNat i)).isSome = true := by
  unfold read? at h
  split at h
  · rename_i hmapped
    exact hmapped i hi
  · cases h

private theorem store_apart (image : Image) (h : ¬ Within address bytes.length a) :
    (image.store address bytes).memory a = image.memory a := by
  have hout : bytes.length ≤ (a - address).toNat := Nat.le_of_not_lt h
  show (image.memory a).map _ = image.memory a
  cases image.memory a with
  | none => rfl
  | some old => rw [Option.map_some, List.getD_eq_getElem?_getD, List.getElem?_eq_none hout, Option.getD_none]

private theorem isSome_store (image : Image) (address : UInt32) (bytes : Bytes) (a : UInt32) :
    ((image.store address bytes).memory a).isSome = (image.memory a).isSome :=
  Option.isSome_map ..

/-! ### Images that keep what was there -/

/-- Where there was memory before, it is as it was. -/
structure Keeps (before image : Image) : Prop where
  is64Bit : image.is64Bit = before.is64Bit
  moduleBase : image.moduleBase = before.moduleBase
  memory : ∀ a, (before.memory a).isSome = true → image.memory a = before.memory a

theorem Keeps.refl (image : Image) : image.Keeps image := ⟨rfl, rfl, fun _ _ => rfl⟩

theorem Keeps.read? (h : before.Keeps image) (hread : before.read? address n = some bytes) :
    image.read? address n = some bytes := by
  rw [← hread]
  exact read?_congr fun i hi => h.memory _ (isSome_read? hread hi)

/-! ### Patched images -/

/-- There is one more block, and no other memory was changed than at the given addresses. -/
structure Patched (before : Image) (base : UInt32) (n : Nat) (changed : UInt32 → Prop) (image : Image) : Prop where
  is64Bit : image.is64Bit = before.is64Bit
  moduleBase : image.moduleBase = before.moduleBase
  blocks : image.blocks = Function.update before.blocks base (some n)
  mapped : ∀ a, ¬ Within base n a → (image.memory a).isSome = (before.memory a).isSome
  memory : ∀ a, ¬ Within base n a → ¬ changed a → image.memory a = before.memory a

variable {changed changed' : UInt32 → Prop}

theorem patched_allocate (before : Image) (base : UInt32) (n : Nat) (changed : UInt32 → Prop) :
    before.Patched base n changed (before.allocate base n) where
  is64Bit := rfl
  moduleBase := rfl
  blocks := rfl
  mapped a ha := by simp only [allocate, if_neg ha]
  memory a ha _ := by simp only [allocate, if_neg ha]

theorem Patched.mono (h : before.Patched base n changed image) (hchanged : ∀ a, changed a → changed' a) :
    before.Patched base n changed' image :=
  { h with memory := fun a ha hnot => h.memory a ha fun hchange => hnot (hchanged a hchange) }

/-- Bytes go to the block and to addresses that may change. -/
theorem Patched.store (h : before.Patched base n changed image)
    (hplace : ∀ a, Within address bytes.length a → Within base n a ∨ changed a) :
    before.Patched base n changed (image.store address bytes) where
  is64Bit := h.is64Bit
  moduleBase := h.moduleBase
  blocks := h.blocks
  mapped a ha := (image.isSome_store address bytes a).trans (h.mapped a ha)
  memory a ha hnot := (image.store_apart fun hin => (hplace a hin).elim ha hnot).trans (h.memory a ha hnot)

/-- Bytes that were read before are put back. -/
theorem Patched.put_back (h : before.Patched base n changed image)
    (hread : before.read? address bytes.length = some bytes) :
    before.Patched base n (fun a => changed a ∧ ¬ Within address bytes.length a) (image.store address bytes) where
  is64Bit := h.is64Bit
  moduleBase := h.moduleBase
  blocks := h.blocks
  mapped a ha := (image.isSome_store address bytes a).trans (h.mapped a ha)
  memory a ha hnot := by
    by_cases hin : Within address bytes.length a
    · have hbefore := memory_of_read? hread hin
      obtain ⟨b, hb⟩ : ∃ b, bytes[(a - address).toNat]? = some b := ⟨_, List.getElem?_eq_getElem hin⟩
      rw [hb] at hbefore
      obtain ⟨old, hold⟩ := Option.isSome_iff_exists.1 ((h.mapped a ha).trans (Option.isSome_of_eq_some hbefore))
      show (image.memory a).map _ = before.memory a
      rw [hold, hbefore, Option.map_some, List.getD_eq_getElem?_getD, hb, Option.getD_some]
    · exact (image.store_apart hin).trans (h.memory a ha fun hchange => hnot ⟨hchange, hin⟩)

/-- What was read before is read again, where nothing was changed. -/
theorem Patched.read?_eq (h : before.Patched base n changed image) (hfree : before.Free base n)
    (hread : before.read? address k = some bytes) (hnot : ∀ a, Within address k a → ¬ changed a) :
    image.read? address k = some bytes := by
  rw [← hread]
  refine read?_congr fun i hi => h.memory _ (fun hin => ?_) (hnot _ ?_)
  · have hmapped := isSome_read? hread hi
    rw [hfree.memory _ hin] at hmapped
    cases hmapped
  · have hsub : address + UInt32.ofNat i - address = UInt32.ofNat i := by grind
    have hle := Nat.mod_le i (2 ^ 32)
    rw [Within, hsub, UInt32.toNat_ofNat']
    omega

theorem Patched.keeps (h : before.Patched base n (fun _ => False) image) (hfree : before.Free base n) :
    before.Keeps image where
  is64Bit := h.is64Bit
  moduleBase := h.moduleBase
  memory a ha := by
    refine h.memory a (fun hin => ?_) id
    rw [hfree.memory a hin] at ha
    cases ha

/-- Without its block, and without changes, the image is that of before. -/
theorem Patched.release_eq (h : before.Patched base n (fun _ => False) image) (hfree : before.Free base n) :
    image.release base = before := by
  have hblock : image.blocks base = some n := by rw [h.blocks, Function.update_self]
  unfold release
  rw [hblock]
  refine Image.ext h.is64Bit h.moduleBase (funext fun a => ?_) ?_
  · show (if Within base n a then none else image.memory a) = before.memory a
    split
    · rename_i hin
      exact (hfree.memory a hin).symm
    · rename_i hout
      exact h.memory a hout id
  · show Function.update image.blocks base none = before.blocks
    rw [h.blocks, Function.update_idem, ← hfree.blocks, Function.update_eq_self]

/-! ### Platforms that show images -/

/-- What there is to be seen of processes that have these images. -/
def sight {π : Type} (images : π → Image) : Sight π where
  is64Bit process := (images process).is64Bit
  moduleBase process := (images process).moduleBase
  read process := (images process).read?

end Image

variable {σ π : Type} {platform : Platform σ π} {images : σ → π → Image}

/-- The platform accesses processes that have images. Looking at them changes nothing and shows what there is. Any
access may fail: an allocation or a release does nothing then, and a write may have stored its first bytes. -/
structure Platform.Shows (platform : Platform σ π) (images : σ → π → Image) : Prop where
  quiet : ∀ seen, platform.Quiet (Image.sight seen) (fun w => images w = seen) fun w => images w = seen
  write : ∀ process address bytes image, Attempt.Ensures (fun w => images w process = image)
    (platform.write process address bytes) (fun _ w => images w process = image.store address bytes)
    fun w => ∃ k, images w process = image.store address (bytes.take k)
  allocate : ∀ process size image, Attempt.Ensures (fun w => images w process = image)
    (platform.allocate process size)
    (fun base w => ∃ n, size ≤ n ∧ image.Free base n ∧ images w process = image.allocate base n)
    fun w => images w process = image
  free : ∀ process base image, Attempt.Ensures (fun w => images w process = image) (platform.free process base)
    (fun _ w => images w process = image.release base) fun w => images w process = image

/-- A process that keeps what an accepted process had is found and can be patched, if no access fails. -/
theorem Platform.Shows.attachable (h : platform.Shows images) {seen : π → Image} {candidate : Candidate π}
    (hverified : candidate.Verified (Image.sight seen)) {process : π} {s : Traced σ}
    (hkeeps : (seen candidate.process).Keeps (images s.world process)) : platform.Attachable process s := by
  refine (h.quiet (images s.world)).attachable (hverified.candidate?_eq ?_ ?_ ?_ fun snapshot hsnapshot => ?_) rfl
  · exact hkeeps.is64Bit.trans hverified.narrow
  · exact hkeeps.moduleBase.trans hverified.base.symm
  · obtain ⟨bytes, hbytes, hbuild⟩ := Option.bind_eq_some_iff.1 hverified.build
    refine Option.bind_eq_some_iff.2 ⟨bytes, ?_, hbuild⟩
    have haddress : (Image.sight (images s.world)).moduleBase process =
        (Image.sight seen).moduleBase candidate.process :=
      hkeeps.moduleBase
    rw [haddress]
    exact hkeeps.read? hbytes
  · obtain ⟨hplaced, hcode⟩ := hverified.code snapshot hsnapshot
    exact ⟨hplaced, hkeeps.read? hcode⟩

end LoadRemover
