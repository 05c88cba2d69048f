import LoadRemover.Code.Buffer

/-!
# Fields and moves

A move corrects the fields of a buffer one after the other. The fields of a buffer lie apart from each other and
inside its bytes (`Relocation.Fit`), so the corrections do not disturb each other:

* two moves in a row are one move to the second address (`Code.moveTo_moveTo`), and a move to where the code is
  already changes nothing (`Code.moveTo_self`);
* a fragment at the end moves on its own (`Code.moveTo_append`).
-/

namespace LoadRemover

/-! ### Words of four bytes -/

theorem Bytes.littleEndian32_word {bs : Bytes} (h : bs.length = 4) : littleEndian32 bs.word = bs := by
  obtain ⟨a, b, c, d, rfl⟩ : ∃ a b c d, bs = [a, b, c, d] := by
    match bs, h with
    | [a, b, c, d], _ => exact ⟨a, b, c, d, rfl⟩
  have ha := a.toNat_lt
  have hb := b.toNat_lt
  have hc := c.toNat_lt
  have hd := d.toNat_lt
  simp only [littleEndian32, word, value, List.cons.injEq, and_true]
  refine ⟨?_, ?_, ?_, ?_⟩ <;> apply UInt8.toNat_inj.1 <;>
    simp [Nat.shiftRight_eq_div_pow] <;> omega

namespace Relocation

/-! ### Correcting one field -/

theorem apply_at (r : Relocation) (delta w : UInt32) (pre post : Bytes) (h : r.offset = pre.length) :
    r.apply delta (pre ++ Bytes.littleEndian32 w ++ post) =
      pre ++ Bytes.littleEndian32 (r.adjust delta w) ++ post := by
  have hslice : (pre ++ Bytes.littleEndian32 w ++ post).slice pre.length width = Bytes.littleEndian32 w := by
    rw [Bytes.slice, List.append_assoc, List.drop_left]
    rfl
  rw [apply, h, hslice, Bytes.word_littleEndian32, Bytes.overwrite, List.append_assoc pre, List.take_left,
    List.drop_length_add_append]
  congr 1

theorem exists_field {bytes : Bytes} {i : Nat} (h : i + width ≤ bytes.length) :
    ∃ pre w post, bytes = pre ++ Bytes.littleEndian32 w ++ post ∧ pre.length = i := by
  have hfield : ((bytes.drop i).take 4).length = 4 := by simp [width] at h ⊢; omega
  refine ⟨bytes.take i, Bytes.word ((bytes.drop i).take 4), bytes.drop (i + 4), ?_, by simp; omega⟩
  rw [Bytes.littleEndian32_word hfield, List.append_assoc, ← List.drop_drop, List.take_append_drop,
    List.take_append_drop]

theorem length_apply {r : Relocation} {bytes : Bytes} (h : r.offset + width ≤ bytes.length) (delta : UInt32) :
    (r.apply delta bytes).length = bytes.length :=
  Bytes.length_overwrite h

private theorem apply_zero {r : Relocation} {bytes : Bytes} (h : r.offset + width ≤ bytes.length) :
    r.apply 0 bytes = bytes := by
  obtain ⟨pre, w, post, rfl, hpre⟩ := exists_field h
  rw [apply_at r 0 w pre post hpre.symm]
  cases hk : r.kind <;> simp [adjust, hk]

private theorem apply_apply {r : Relocation} {bytes : Bytes} (h : r.offset + width ≤ bytes.length) (d e : UInt32) :
    r.apply e (r.apply d bytes) = r.apply (d + e) bytes := by
  obtain ⟨pre, w, post, rfl, hpre⟩ := exists_field h
  rw [apply_at r d w pre post hpre.symm, apply_at r e _ pre post hpre.symm, apply_at r (d + e) w pre post hpre.symm]
  cases hk : r.kind
  · simp only [adjust, hk, UInt32.add_assoc]
  · simp only [adjust, hk, UInt32.sub_eq_add_neg, UInt32.neg_add, UInt32.add_assoc]

theorem apply_comm {r s : Relocation} {bytes : Bytes} (hrs : r.offset + width ≤ s.offset)
    (hs : s.offset + width ≤ bytes.length) (d e : UInt32) :
    s.apply e (r.apply d bytes) = r.apply d (s.apply e bytes) := by
  obtain ⟨front, v, post, rfl, hfront⟩ := exists_field hs
  obtain ⟨pre, w, mid, rfl, hpre⟩ := exists_field (hfront ▸ hrs)
  have hr : ∀ (w v : UInt32), r.apply d (pre ++ Bytes.littleEndian32 w ++ mid ++ Bytes.littleEndian32 v ++ post) =
      pre ++ Bytes.littleEndian32 (r.adjust d w) ++ mid ++ Bytes.littleEndian32 v ++ post := by
    intro w v
    have := apply_at r d w pre (mid ++ (Bytes.littleEndian32 v ++ post)) hpre.symm
    simpa only [List.append_assoc] using this
  have hs' : ∀ (w v : UInt32), s.apply e (pre ++ Bytes.littleEndian32 w ++ mid ++ Bytes.littleEndian32 v ++ post) =
      pre ++ Bytes.littleEndian32 w ++ mid ++ Bytes.littleEndian32 (s.adjust e v) ++ post := by
    intro w v
    refine apply_at s e v _ post ?_
    rw [← hfront]; simp
  rw [hr, hs', hs', hr]

private theorem apply_append_left {r : Relocation} {bytes : Bytes} (h : r.offset + width ≤ bytes.length)
    (delta : UInt32) (more : Bytes) : r.apply delta (bytes ++ more) = r.apply delta bytes ++ more := by
  obtain ⟨pre, w, post, rfl, hpre⟩ := exists_field h
  have := apply_at r delta w pre (post ++ more) hpre.symm
  rw [apply_at r delta w pre post hpre.symm]
  simpa only [List.append_assoc] using this

private theorem apply_append_right {r : Relocation} {bytes : Bytes} (h : r.offset + width ≤ bytes.length)
    (delta : UInt32)
    (front : Bytes) : (r.shift front.length).apply delta (front ++ bytes) = front ++ r.apply delta bytes := by
  obtain ⟨pre, w, post, rfl, hpre⟩ := exists_field h
  have := apply_at (r.shift front.length) delta w (front ++ pre) post (by simp [shift, hpre])
  rw [apply_at r delta w pre post hpre.symm]
  simpa only [List.append_assoc, adjust, shift] using this

/-! ### Correcting all fields -/

/-- The fields lie inside `n` bytes, in their order and apart from each other. -/
structure Fit (relocations : List Relocation) (n : Nat) : Prop where
  inside : ∀ r ∈ relocations, r.offset + width ≤ n
  apart : relocations.Pairwise fun r s => r.offset + width ≤ s.offset

def applyAll (relocations : List Relocation) (delta : UInt32) (bytes : Bytes) : Bytes :=
  relocations.foldl (fun bytes r => r.apply delta bytes) bytes

theorem Fit.nil (n : Nat) : Fit [] n := ⟨by simp, List.Pairwise.nil⟩

theorem Fit.tail {r : Relocation} {rs : List Relocation} {n : Nat} (h : Fit (r :: rs) n) : Fit rs n :=
  ⟨fun s hs => h.inside s (List.mem_cons_of_mem _ hs), (List.pairwise_cons.1 h.apart).2⟩

theorem Fit.head {r : Relocation} {rs : List Relocation} {n : Nat} (h : Fit (r :: rs) n) : r.offset + width ≤ n :=
  h.inside r (List.mem_cons_self ..)

theorem Fit.append {rs ss : List Relocation} {n k : Nat} (hr : Fit rs n) (hs : Fit ss k) :
    Fit (rs ++ ss.map (·.shift n)) (n + k) := by
  constructor
  · intro r h
    rcases List.mem_append.1 h with h | h
    · have := hr.inside r h
      omega
    · obtain ⟨s, hmem, rfl⟩ := List.mem_map.1 h
      have := hs.inside s hmem
      simp only [shift]
      omega
  · rw [List.pairwise_append, List.pairwise_map]
    refine ⟨hr.apart, hs.apart.imp fun h => by simp only [shift]; omega, ?_⟩
    intro r hmem s' hmem'
    obtain ⟨s, _, rfl⟩ := List.mem_map.1 hmem'
    have := hr.inside r hmem
    simp only [shift]
    omega

theorem length_applyAll {rs : List Relocation} {bytes : Bytes} (h : Fit rs bytes.length) (delta : UInt32) :
    (applyAll rs delta bytes).length = bytes.length := by
  induction rs generalizing bytes with
  | nil => rfl
  | cons r rs ih =>
    have hlen := length_apply h.head delta
    show (applyAll rs delta (r.apply delta bytes)).length = bytes.length
    rw [ih (by rw [hlen]; exact h.tail), hlen]

private theorem applyAll_zero {rs : List Relocation} {bytes : Bytes} (h : Fit rs bytes.length) :
    applyAll rs 0 bytes = bytes := by
  induction rs with
  | nil => rfl
  | cons r rs ih =>
    show applyAll rs 0 (r.apply 0 bytes) = bytes
    rw [apply_zero h.head, ih h.tail]

private theorem applyAll_apply_comm {r : Relocation} {rs : List Relocation} {bytes : Bytes}
    (h : Fit (r :: rs) bytes.length) (d e : UInt32) :
    applyAll rs e (r.apply d bytes) = r.apply d (applyAll rs e bytes) := by
  induction rs generalizing bytes with
  | nil => rfl
  | cons s rs ih =>
    have hs : s.offset + width ≤ bytes.length := h.tail.head
    have hrs : r.offset + width ≤ s.offset := (List.pairwise_cons.1 h.apart).1 s (List.mem_cons_self ..)
    have hrest : Fit (r :: rs) (s.apply e bytes).length := by
      rw [length_apply hs]
      refine ⟨?_, h.apart.sublist (List.Sublist.cons_cons r (List.sublist_cons_self ..))⟩
      intro t ht
      rcases List.mem_cons.1 ht with rfl | ht
      · exact h.head
      · exact h.tail.tail.inside t ht
    show applyAll rs e (s.apply e (r.apply d bytes)) = r.apply d (applyAll rs e (s.apply e bytes))
    rw [apply_comm hrs hs, ih hrest]

/-- The corrections for two moves in a row add up. -/
private theorem applyAll_applyAll {rs : List Relocation} {bytes : Bytes} (h : Fit rs bytes.length) (d e : UInt32) :
    applyAll rs e (applyAll rs d bytes) = applyAll rs (d + e) bytes := by
  induction rs generalizing bytes with
  | nil => rfl
  | cons r rs ih =>
    have hr := h.head
    have hfit : ∀ d, Fit (r :: rs) (r.apply d bytes).length := fun d => by rw [length_apply hr]; exact h
    show applyAll rs e (r.apply e (applyAll rs d (r.apply d bytes))) = applyAll rs (d + e) (r.apply (d + e) bytes)
    rw [← applyAll_apply_comm (hfit d), apply_apply hr, ih (hfit (d + e)).tail]

theorem applyAll_append {rs ss : List Relocation} {front bytes : Bytes} (hr : Fit rs front.length)
    (hs : Fit ss bytes.length) (delta : UInt32) :
    applyAll (rs ++ ss.map (·.shift front.length)) delta (front ++ bytes) =
      applyAll rs delta front ++ applyAll ss delta bytes := by
  -- each of the two inductions leaves the other part alone
  have hfront : ∀ {rs front}, Fit rs front.length → applyAll rs delta (front ++ bytes) =
      applyAll rs delta front ++ bytes := by
    intro rs front hr
    induction rs generalizing front with
    | nil => rfl
    | cons r rs ih =>
      show applyAll rs delta (r.apply delta (front ++ bytes)) = applyAll rs delta (r.apply delta front) ++ bytes
      rw [apply_append_left hr.head, ih (by rw [length_apply hr.head]; exact hr.tail)]
  have hback : ∀ {ss bytes} (front : Bytes), Fit ss bytes.length →
      applyAll (ss.map (·.shift front.length)) delta (front ++ bytes) = front ++ applyAll ss delta bytes := by
    intro ss bytes front hs
    induction ss generalizing bytes with
    | nil => rfl
    | cons s ss ih =>
      show applyAll (ss.map (·.shift front.length)) delta ((s.shift front.length).apply delta (front ++ bytes)) =
        front ++ applyAll ss delta (s.apply delta bytes)
      rw [apply_append_right hs.head, ih (by rw [length_apply hs.head]; exact hs.tail)]
  have hlen := length_applyAll hr delta
  have happ : applyAll (rs ++ ss.map (·.shift front.length)) delta (front ++ bytes) =
      applyAll (ss.map (·.shift front.length)) delta (applyAll rs delta (front ++ bytes)) := List.foldl_append
  rw [happ, hfront hr, ← hlen, hback _ hs]

end Relocation

/-! ### Moving a buffer -/

/-- The fragment after a move of the code that holds it by `delta`. -/
def Fragment.moved (fragment : Fragment) (delta : UInt32) : Fragment :=
  { fragment with bytes := Relocation.applyAll fragment.relocations delta fragment.bytes }

def Fragment.Fit (fragment : Fragment) : Prop := Relocation.Fit fragment.relocations fragment.bytes.length

namespace Code

def Fit (code : Code) : Prop := Relocation.Fit code.relocations code.size

variable {code : Code}

theorem movedBytes_eq (code : Code) (delta : UInt32) :
    code.movedBytes delta = Relocation.applyAll code.relocations delta code.bytes := rfl

theorem fit_emptyAt (base : UInt32) : (emptyAt base).Fit := Relocation.Fit.nil _

@[simp] theorem size_moveTo (h : code.Fit) (base : UInt32) : (code.moveTo base).size = code.size :=
  Relocation.length_applyAll h _

theorem Fit.moveTo (h : code.Fit) (base : UInt32) : (code.moveTo base).Fit := by
  unfold Fit
  rw [moveTo_relocations, size_moveTo h]
  exact h

theorem Fit.append {fragment : Fragment} (h : code.Fit) (hf : fragment.Fit) : (code.append fragment).Fit := by
  unfold Fit
  rw [size_append]
  exact Relocation.Fit.append h hf

/-- Only the last of several moves counts. -/
theorem moveTo_moveTo (h : code.Fit) (a b : UInt32) : (code.moveTo a).moveTo b = code.moveTo b := by
  have hdelta : a - code.base + (b - a) = b - code.base := by grind
  have hbytes := Relocation.applyAll_applyAll h (a - code.base) (b - a)
  rw [hdelta] at hbytes
  simp only [moveTo, movedBytes_eq, Code.mk.injEq, and_true, true_and]
  exact hbytes

theorem moveTo_self (h : code.Fit) : code.moveTo code.base = code := by
  have hbytes := Relocation.applyAll_zero h
  rw [moveTo, movedBytes_eq, UInt32.sub_self, hbytes]

/-- A fragment moves with the code to which it was added. -/
theorem moveTo_append {fragment : Fragment} (h : code.Fit) (hf : fragment.Fit) (base : UInt32) :
    (code.append fragment).moveTo base = (code.moveTo base).append (fragment.moved (base - code.base)) := by
  have hbytes := Relocation.applyAll_append h hf (base - code.base)
  have hsize : (code.moveTo base).size = code.size := size_moveTo h base
  simp only [moveTo, movedBytes_eq, append, Code.mk.injEq, true_and] at hsize ⊢
  refine ⟨hbytes, ?_⟩
  rw [← hsize]
  rfl

end Code

end LoadRemover
