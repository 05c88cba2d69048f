import Mathlib.Data.List.Basic
import Mathlib.Data.List.Pairwise
import LoadRemover.Proofs.Moving

/-!
# The fields of a buffer never collide

Whatever a buffer is built from (`Code.Built`), its fields lie inside it, in their order and apart from each other.
So a move, and likewise the addition of another buffer, corrects them with accesses inside the bytes only, each once,
in any order, and leaves all other bytes alone (`Relocation.Corrects`).

A correction outside the bytes would not succeed (`Relocation.applyInside?`). Two of them can change places whatever the
bytes are (`Relocation.applyInside?_comm`), because none changes their number; so a list of them can be permuted.
-/

namespace LoadRemover

private theorem Bytes.slice_congr {bs bs' : Bytes} {i n : Nat} (h : ∀ j, i ≤ j → j < i + n → bs'[j]? = bs[j]?) :
    bs'.slice i n = bs.slice i n := by
  apply List.ext_getElem?
  intro j
  unfold slice
  rw [List.getElem?_take, List.getElem?_take, List.getElem?_drop, List.getElem?_drop]
  split
  · exact h (i + j) (by omega) (by omega)
  · rfl

namespace Relocation

variable {r s : Relocation} {rs order : List Relocation} {bytes : Bytes} {delta : UInt32} {i : Nat}

/-! ### One field -/

/-- The byte belongs to the field. -/
def Has (r : Relocation) (i : Nat) : Prop := r.offset ≤ i ∧ i < r.offset + width

def Apart (r s : Relocation) : Prop := r.offset + width ≤ s.offset ∨ s.offset + width ≤ r.offset

instance : Std.Symm Apart where
  symm _ _ h := h.symm

private theorem getElem?_apply (h : r.offset + width ≤ bytes.length) (hi : ¬ r.Has i) :
    (r.apply delta bytes)[i]? = bytes[i]? := by
  obtain ⟨pre, w, post, rfl, hpre⟩ := exists_field h
  rw [apply_at r delta w pre post hpre.symm]
  unfold Has width at hi
  by_cases hlow : i < pre.length
  · simp only [List.append_assoc]
    rw [List.getElem?_append_left hlow, List.getElem?_append_left hlow]
  · have hfield : ∀ v, (pre ++ Bytes.littleEndian32 v).length ≤ i := by
      intro v
      rw [List.length_append, Bytes.length_littleEndian32]
      omega
    rw [List.getElem?_append_right (hfield _), List.getElem?_append_right (hfield _), List.length_append,
      List.length_append, Bytes.length_littleEndian32, Bytes.length_littleEndian32]

private theorem slice_apply (h : r.offset + width ≤ bytes.length) :
    (r.apply delta bytes).slice r.offset width =
      Bytes.littleEndian32 (r.adjust delta (bytes.slice r.offset width).word) := by
  obtain ⟨pre, w, post, rfl, hpre⟩ := exists_field h
  have hslice : ∀ v, (pre ++ Bytes.littleEndian32 v ++ post).slice r.offset width = Bytes.littleEndian32 v := by
    intro v
    rw [Bytes.slice, ← hpre, List.append_assoc, List.drop_left]
    rfl
  rw [apply_at r delta w pre post hpre.symm, hslice, hslice, Bytes.word_littleEndian32]

/-- The correction of a field that has to lie inside the bytes. -/
def applyInside? (r : Relocation) (delta : UInt32) (bytes : Bytes) : Option Bytes :=
  if r.offset + width ≤ bytes.length then some (r.apply delta bytes) else none

private theorem applyInside?_eq_some (h : r.offset + width ≤ bytes.length) (delta : UInt32) :
    r.applyInside? delta bytes = some (r.apply delta bytes) := if_pos h

private theorem applyInside?_comm_of_le (h : r.offset + width ≤ s.offset) (delta : UInt32) (bytes : Bytes) :
    (r.applyInside? delta bytes).bind (s.applyInside? delta) =
      (s.applyInside? delta bytes).bind (r.applyInside? delta) := by
  by_cases hs : s.offset + width ≤ bytes.length
  · have hr : r.offset + width ≤ bytes.length := by omega
    have hr' : r.offset + width ≤ (s.apply delta bytes).length := by rwa [length_apply hs]
    have hs' : s.offset + width ≤ (r.apply delta bytes).length := by rwa [length_apply hr]
    rw [applyInside?_eq_some hr, applyInside?_eq_some hs, Option.bind_some, Option.bind_some, applyInside?_eq_some hs',
      applyInside?_eq_some hr', apply_comm h hs]
  · -- the further field is outside the bytes, also after the correction of the other one
    have hnone : s.applyInside? delta bytes = none := if_neg hs
    rw [hnone, Option.bind_none]
    by_cases hr : r.offset + width ≤ bytes.length
    · rw [applyInside?_eq_some hr, Option.bind_some, applyInside?, length_apply hr, if_neg hs]
    · rw [applyInside?, if_neg hr, Option.bind_none]

private theorem applyInside?_comm (h : r.Apart s) (delta : UInt32) (bytes : Bytes) :
    (r.applyInside? delta bytes).bind (s.applyInside? delta) =
      (s.applyInside? delta bytes).bind (r.applyInside? delta) := by
  rcases h with h | h
  · exact applyInside?_comm_of_le h delta bytes
  · exact (applyInside?_comm_of_le h delta bytes).symm

/-! ### All fields -/

/-- The corrections of some fields one after the other, each of which has to lie inside the bytes. -/
def applyEach? (order : List Relocation) (delta : UInt32) (bytes : Bytes) : Option Bytes :=
  order.foldlM (fun bytes r => r.applyInside? delta bytes) bytes

private theorem Fit.tail_apply (h : Fit (r :: rs) bytes.length) (delta : UInt32) :
    Fit rs (r.apply delta bytes).length := by
  rw [length_apply h.head]
  exact h.tail

private theorem applyEach?_eq_some (h : Fit rs bytes.length) (delta : UInt32) :
    applyEach? rs delta bytes = some (applyAll rs delta bytes) := by
  induction rs generalizing bytes with
  | nil => rfl
  | cons r rs ih =>
    have hrest := h.tail_apply delta
    unfold applyEach?
    rw [List.foldlM_cons, applyInside?_eq_some h.head]
    exact ih hrest

private theorem Fit.pairwise_apart {n : Nat} (h : Fit rs n) : rs.Pairwise Apart := h.apart.imp .inl

private theorem applyEach?_perm (h : rs.Pairwise Apart) (hperm : order.Perm rs) (delta : UInt32) (bytes : Bytes) :
    applyEach? order delta bytes = applyEach? rs delta bytes := by
  unfold applyEach?
  rw [List.foldlM_eq_foldl, List.foldlM_eq_foldl]
  refine hperm.foldl_eq' (fun r hr s hs bytes? => ?_) _
  cases bytes? with
  | none => rfl
  | some bytes =>
    by_cases hsame : r = s
    · rw [hsame]
    · exact applyInside?_comm (h.forall (hperm.mem_iff.1 hr) (hperm.mem_iff.1 hs) hsame) delta bytes

private theorem getElem?_applyAll (h : Fit rs bytes.length) (hi : ∀ r ∈ rs, ¬ r.Has i) :
    (applyAll rs delta bytes)[i]? = bytes[i]? := by
  induction rs generalizing bytes with
  | nil => rfl
  | cons r rs ih =>
    obtain ⟨hhead, htail⟩ := List.forall_mem_cons.1 hi
    have hrest := h.tail_apply delta
    show (applyAll rs delta (r.apply delta bytes))[i]? = bytes[i]?
    rw [ih hrest htail, getElem?_apply h.head hhead]

private theorem slice_applyAll (h : Fit rs bytes.length) (hr : r ∈ rs) :
    (applyAll rs delta bytes).slice r.offset width =
      Bytes.littleEndian32 (r.adjust delta (bytes.slice r.offset width).word) := by
  induction rs generalizing bytes with
  | nil => cases hr
  | cons s rs ih =>
    have hrest := h.tail_apply delta
    have hbehind := (List.pairwise_cons.1 h.apart).1
    show (applyAll rs delta (s.apply delta bytes)).slice r.offset width = _
    rcases List.mem_cons.1 hr with rfl | hr
    · -- later corrections do not touch the first field
      rw [← slice_apply h.head]
      refine Bytes.slice_congr fun j hfrom hto => getElem?_applyAll hrest fun t ht hhas => ?_
      have hapart := hbehind t ht
      have hin := hhas.1
      omega
    · have hslice : (s.apply delta bytes).slice r.offset width = bytes.slice r.offset width := by
        refine Bytes.slice_congr fun j hfrom hto => getElem?_apply h.head fun hhas => ?_
        have hapart := hbehind r hr
        have hin := hhas.2
        omega
      rw [ih hrest hr, hslice]

/-- What correcting some fields does to the bytes. -/
structure Corrects (rs : List Relocation) (delta : UInt32) (bytes moved : Bytes) : Prop where
  /-- In whatever order the fields are corrected, each of them lies inside the bytes. -/
  any_order : ∀ order : List Relocation, order.Perm rs → applyEach? order delta bytes = some moved
  length : moved.length = bytes.length
  /-- Bytes outside the fields are left alone. -/
  outside : ∀ i, (∀ r ∈ rs, ¬ r.Has i) → moved[i]? = bytes[i]?
  /-- Each field is corrected, and once only. -/
  field : ∀ r ∈ rs, moved.slice r.offset width =
    Bytes.littleEndian32 (r.adjust delta (bytes.slice r.offset width).word)

private theorem corrects_applyAll (h : Fit rs bytes.length) (delta : UInt32) :
    Corrects rs delta bytes (applyAll rs delta bytes) where
  any_order order hperm := by
    rw [applyEach?_perm h.pairwise_apart hperm, applyEach?_eq_some h]
  length := length_applyAll h delta
  outside _ hi := getElem?_applyAll h hi
  field _ hr := slice_applyAll h hr

end Relocation

/-! ### Buffers -/

namespace Code

open Relocation

/-- The buffers that can be built. A buffer that is cleared is the empty one, and what is merged into a buffer may be
a copy of it. -/
inductive Built : Code → Prop where
  | emptyAt (base : UInt32) : Built (emptyAt base)
  | data {code : Code} (h : Built code) (bytes : Bytes) : Built (code.data bytes)
  | emit {code : Code} (h : Built code) (instruction : Instruction) : Built (code.emit instruction)
  | merge {code child : Code} (h : Built code) (hchild : Built child) : Built (code.merge child)
  | moveTo {code : Code} (h : Built code) (base : UInt32) : Built (code.moveTo base)
  | clear {code : Code} (h : Built code) : Built empty

variable {code child : Code}

private theorem Built.fit (h : code.Built) : code.Fit := by
  induction h with
  | emptyAt base => exact fit_emptyAt base
  | data _ bytes ih => exact ih.data bytes
  | emit _ instruction ih => exact ih.emit instruction
  | merge _ _ ih ihchild => exact ih.merge ihchild
  | moveTo _ base ih => exact ih.moveTo base
  | clear _ _ => exact fit_emptyAt unplaced

private theorem corrects_moveTo (h : code.Fit) (base : UInt32) :
    Corrects code.relocations (base - code.base) code.bytes (code.moveTo base).bytes :=
  corrects_applyAll h _

/-- The fields of a merged buffer are corrected at the place where it has come to lie. -/
private theorem corrects_merge (hchild : child.Fit) :
    Corrects (child.relocations.map (·.shift code.size)) (code.endAddress - child.base) (code.bytes ++ child.bytes)
      (code.merge child).bytes := by
  have hshifted : Relocation.Fit (child.relocations.map (·.shift code.size)) (code.bytes ++ child.bytes).length := by
    rw [List.length_append]
    exact (Relocation.Fit.nil code.bytes.length).append hchild
  have hmerged : applyAll (child.relocations.map (·.shift code.size)) (code.endAddress - child.base)
      (code.bytes ++ child.bytes) = (code.merge child).bytes :=
    applyAll_append (Relocation.Fit.nil code.bytes.length) hchild _
  rw [← hmerged]
  exact corrects_applyAll hshifted _

/-- **Fields never collide.** In every buffer that can be built the offsets of the fields increase, from each to the
next by four at least, and every field lies inside the bytes. So no correction of a move, or of a merged buffer, reaches
over the end; no byte outside the fields changes; and the order of the corrections does not matter. -/
theorem fields_never_collide (h : code.Built) :
    (code.relocations.map (·.offset)).Pairwise (· < ·) ∧
    (code.relocations.Pairwise fun r s => r.offset + width ≤ s.offset) ∧
    (∀ r ∈ code.relocations, r.offset + width ≤ code.size) ∧
    (∀ base, Corrects code.relocations (base - code.base) code.bytes (code.moveTo base).bytes) ∧
    ∀ child : Code, child.Built →
      Corrects (child.relocations.map (·.shift code.size)) (code.endAddress - child.base) (code.bytes ++ child.bytes)
        (code.merge child).bytes := by
  have hfit := h.fit
  refine ⟨?_, hfit.apart, hfit.inside, corrects_moveTo hfit, fun child hchild => corrects_merge hchild.fit⟩
  rw [List.pairwise_map]
  refine hfit.apart.imp fun hapart => ?_
  unfold width at hapart
  omega

/-- A store to a byte of the buffer, a call and a jump, and a copy of all three behind them: six fields, corrected from
the last to the first. -/
theorem fields_never_collide_doubled :
    let block := ((emptyAt 0x1000).emitAll [.storeByteLabel 0 1, .callAddress 0x403B80 1, .jumpAddress 0x403B86])
    let doubled := (block.merge block).moveTo 0xFFFFFFF0
    doubled.Built ∧ doubled.relocations.map (·.offset) = [2, 12, 17, 23, 33, 38] ∧ doubled.size = 42 ∧
      applyEach? doubled.relocations.reverse (0x2000 - 0xFFFFFFF0) doubled.bytes =
        some (doubled.moveTo 0x2000).bytes := by
  intro block doubled
  have hblock : block.Built := (((Built.emptyAt 0x1000).emit _).emit _).emit _
  have hdoubled : doubled.Built := (hblock.merge hblock).moveTo _
  obtain ⟨-, -, -, hmoves, -⟩ := fields_never_collide hdoubled
  exact ⟨hdoubled, by decide +kernel, by decide +kernel, (hmoves 0x2000).any_order _ (List.reverse_perm _)⟩

end Code

end LoadRemover
