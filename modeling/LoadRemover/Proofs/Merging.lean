import LoadRemover.Proofs.Layout

/-!
# Merging buffers

A buffer that is merged into another one comes to lie at the end of it, as if it had been moved there. What is added
later lies behind it and moves take all of it along, so it stays what it would be at the address that it has come to
(`Code.slice_performAll`). It does not matter from where it was taken (`Code.merge_moveTo`), nor in which order three
buffers are put together (`Code.merge_assoc`).

All of this holds of buffers whose fields fit, so of every buffer that a `Recipe` describes.
-/

namespace LoadRemover

namespace Code

section Merging

variable {code child more part : Code}

/-! ### Merging -/

private theorem bytes_merge (code child : Code) :
    (code.merge child).bytes = code.bytes ++ (child.moveTo code.endAddress).bytes := rfl

theorem relocations_merge (code child : Code) :
    (code.merge child).relocations = code.relocations ++ child.relocations.map (·.shift code.size) := rfl

/-- Where the merged buffer was before does not matter. -/
private theorem merge_moveTo (hchild : child.Fit) (base : UInt32) :
    code.merge (child.moveTo base) = code.merge child := by
  unfold merge
  rw [moveTo_moveTo hchild, moveTo_relocations]

private theorem size_merge (hchild : child.Fit) : (code.merge child).size = code.size + child.size := by
  have hlength : (child.moveTo code.endAddress).bytes.length = child.size := size_moveTo hchild _
  rw [size, bytes_merge, List.length_append, hlength]
  rfl

theorem endAddress_merge (hchild : child.Fit) :
    (code.merge child).endAddress = (child.moveTo code.endAddress).endAddress := by
  have hmerged : (code.merge child).base = code.base := rfl
  rw [endAddress, endAddress, address, address, size_merge hchild, size_moveTo hchild, hmerged, moveTo_base,
    UInt32.ofNat_add, ← UInt32.add_assoc]
  rfl

private theorem merge_assoc (hchild : child.Fit) (hmore : more.Fit) :
    code.merge (child.merge more) = (code.merge child).merge more := by
  have hbytes : (code.merge (child.merge more)).bytes = ((code.merge child).merge more).bytes := by
    rw [bytes_merge, moveTo_merge hchild hmore, bytes_merge, bytes_merge, bytes_merge, endAddress_merge hchild,
      List.append_assoc]
  have hrelocations : (code.merge (child.merge more)).relocations = ((code.merge child).merge more).relocations := by
    have hshift : ∀ r : Relocation, (r.shift child.size).shift code.size = r.shift (code.size + child.size) := by
      intro r
      simp only [Relocation.shift, Nat.add_assoc]
    simp only [relocations_merge, size_merge hchild, List.map_append, List.map_map, Function.comp_def, hshift,
      List.append_assoc]
  exact (Code.mk.injEq ..).mpr ⟨rfl, hbytes, hrelocations⟩

/-! ### What is added later -/

private theorem continues_perform (code : Code) {step : Step} (hadds : step.adds = true) :
    code.Continues (code.perform step) := by
  cases step with
  | data bytes => exact continues_append code _
  | emit instruction => exact continues_append code _
  | merge base steps => exact continues_append code _
  | moveTo base => simp [Step.adds] at hadds

/-- Later steps leave the code as it is, up to moves. -/
theorem continues_performAll (h : code.Fit) (steps : List Step) :
    (code.moveTo (code.performAll steps).base).Continues (code.performAll steps) := by
  induction steps generalizing code with
  | nil =>
    rw [performAll, moveTo_self h]
    exact .refl code
  | cons step rest ih =>
    have hrest := ih (h.perform step)
    rw [performAll]
    cases hadds : step.adds with
    | true =>
      refine Continues.trans ?_ hrest
      rw [← perform_moveTo h hadds]
      exact continues_perform _ hadds
    | false =>
      -- of this move and the last one only the last one counts
      cases step with
      | moveTo base =>
        rw [perform, moveTo_moveTo h] at hrest
        exact hrest
      | data bytes => simp [Step.adds] at hadds
      | emit instruction => simp [Step.adds] at hadds
      | merge base steps => simp [Step.adds] at hadds

private theorem Continues.slice {front piece : Bytes} (h : part.Continues code) (hbytes : part.bytes = front ++ piece) :
    code.bytes.slice front.length piece.length = piece := by
  obtain ⟨rest, hrest⟩ := h.bytes
  rw [← hrest, hbytes, List.append_assoc, Bytes.slice, List.drop_left, List.take_left]

/-- The merged buffer is the buffer moved to where it has come to lie. -/
private theorem slice_performAll (h : code.Fit) (hchild : child.Fit) (later : List Step) :
    ((code.merge child).performAll later).bytes.slice code.size child.size =
      (child.moveTo (((code.merge child).performAll later).address code.size)).bytes := by
  have hcontinues := continues_performAll (h.merge hchild) later
  rw [moveTo_merge h hchild] at hcontinues
  have hslice := hcontinues.slice (bytes_merge _ child)
  have hend : (code.moveTo ((code.merge child).performAll later).base).endAddress =
      ((code.merge child).performAll later).address code.size := by
    rw [endAddress, address, address, size_moveTo h, moveTo_base]
  have hfront : (code.moveTo ((code.merge child).performAll later).base).bytes.length = code.size := size_moveTo h _
  have hpiece : ∀ base, (child.moveTo base).bytes.length = child.size := fun base => size_moveTo hchild base
  rw [hend, hfront, hpiece] at hslice
  exact hslice

end Merging

/-! ### Buffers that were built -/

/-- How a buffer was built: from an empty one at an address, by steps. -/
structure Recipe where
  base : UInt32 := unplaced
  steps : List Step

def Recipe.code (recipe : Recipe) : Code := (emptyAt recipe.base).performAll recipe.steps

theorem Recipe.fit (recipe : Recipe) : recipe.code.Fit := (fit_emptyAt recipe.base).performAll recipe.steps

/-- **Merging puts code where it belongs.** A buffer that is merged into another one, wherever it was before, is the
buffer moved to the address that it gets behind this one, and it remains so through everything that is added later and
through all later moves. It makes no difference whether a third buffer is merged into it before or behind it
afterwards. -/
theorem merge_recipes (parent child more : Recipe) :
    (∀ base, parent.code.merge (child.code.moveTo base) = parent.code.merge child.code) ∧
      (∀ later : List Step, ((parent.code.merge child.code).performAll later).bytes.slice
          parent.code.size child.code.size =
        (child.code.moveTo (((parent.code.merge child.code).performAll later).address parent.code.size)).bytes) ∧
      parent.code.merge (child.code.merge more.code) = (parent.code.merge child.code).merge more.code := by
  refine ⟨?_, ?_, ?_⟩
  · intro base
    exact merge_moveTo child.fit base
  · intro later
    exact slice_performAll parent.fit child.fit later
  · exact merge_assoc child.fit more.fit

end Code

end LoadRemover
