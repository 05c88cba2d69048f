import LoadRemover.Proofs.Redirects

/-!
# A patched process and its shadow

What a session leaves alone is seen best next to the same process without the session. The `Shadow` relation ties a
patched process to one in which only the same bytes were poked: their regions are the same up to the bytes at the
sites, and the patched process has one more block, its last, which is the head block. Putting the head block in place
starts it (`Target.shadow_of_filled`), redirecting and restoring a site keeps it (`Shadow.write`), and so does poking
the same bytes into both (`Shadow.poke`). When the head block is released, only the bytes at the sites are left to
tell the two apart (`Shadow.free`).
-/

namespace LoadRemover

/-! ### Regions that differ in some places -/

namespace Region

variable {keep : Nat → Prop} {r r' : Region} {a : Nat} {bytes : Bytes}

private theorem SameAt.write_both (h : r.SameAt keep r') (a : Nat) (bytes : Bytes) :
    (r.write a bytes).SameAt keep (r'.write a bytes) := by
  have hbase : r'.base = r.base := congrArg Prod.fst h.extent
  refine ⟨h.extent, fun i hi => ?_⟩
  simp only [write, hbase]
  split
  · rfl
  · exact h.content i hi

private theorem SameAt.write (h : r.SameAt keep r') (hcovers : r.covers a bytes.length = true)
    (hsites : ∀ i < bytes.length, ¬ keep (a + i)) : r.SameAt keep (r'.write a bytes) := by
  have hbase : r'.base = r.base := congrArg Prod.fst h.extent
  refine ⟨h.extent, fun i hi => ?_⟩
  rw [covers_iff] at hcovers
  simp only [Region.write, hbase]
  rw [if_neg]
  · exact h.content i hi
  · intro hin
    refine hsites (i - (a - r.base)) (by omega) ?_
    rwa [show a + (i - (a - r.base)) = r.base + i by omega]

end Region

namespace InMemory

section Lists

variable {keep : Nat → Prop} {us us' rs rs' : List Region} {a : Nat} {bytes : Bytes}

/-- The same bytes in both lists go to the same place. -/
private theorem pokeIn_of_sameAt (h : List.Forall₂ (Region.SameAt keep) us rs) (a : Nat) (bytes : Bytes) :
    Option.Rel (List.Forall₂ (Region.SameAt keep)) (pokeIn us a bytes) (pokeIn rs a bytes) := by
  induction h with
  | nil => exact .none
  | @cons u r us rs hr htail ih =>
    rw [pokeIn, pokeIn, Region.covers_of_extent hr.extent]
    split
    · exact .some (.cons (hr.write_both a bytes) htail)
    · cases hus : pokeIn us a bytes with
      | none =>
        rw [hus] at ih
        cases hrs : pokeIn rs a bytes with
        | none => exact .none
        | some rs' =>
          rw [hrs] at ih
          cases ih
      | some us' =>
        rw [hus] at ih
        cases hrs : pokeIn rs a bytes with
        | none =>
          rw [hrs] at ih
          cases ih
        | some rs' =>
          rw [hrs] at ih
          cases ih with
          | some hrest => exact .some (.cons hr hrest)

/-- Bytes in the places that may differ leave the lists as similar as they were. -/
private theorem sameAt_of_pokeIn (h : List.Forall₂ (Region.SameAt keep) us rs) (hpoke : pokeIn rs a bytes = some rs')
    (hsites : ∀ i < bytes.length, ¬ keep (a + i)) : List.Forall₂ (Region.SameAt keep) us rs' := by
  induction h generalizing rs' with
  | nil => simp [pokeIn] at hpoke
  | @cons u r us rs hr htail ih =>
    rw [pokeIn] at hpoke
    split at hpoke
    · rename_i hcovers
      obtain rfl := Option.some.inj hpoke
      rw [Region.covers_of_extent hr.extent] at hcovers
      exact .cons (hr.write hcovers hsites) htail
    · obtain ⟨rest', hrest, rfl⟩ := Option.map_eq_some_iff.1 hpoke
      exact .cons hr (ih hrest)

/-- What is put into a list of regions goes to one of the first regions or to the last one. -/
private theorem pokeIn_concat {front : List Region} {block : Region}
    (h : pokeIn (front ++ [block]) a bytes = some rs') :
    (∃ front', pokeIn front a bytes = some front' ∧ rs' = front' ++ [block]) ∨
      pokeIn front a bytes = none ∧ ∃ block', block'.base = block.base ∧ rs' = front ++ [block'] := by
  rw [pokeIn_append] at h
  cases hfront : pokeIn front a bytes with
  | some front' =>
    rw [hfront] at h
    exact .inl ⟨front', rfl, (Option.some.inj h).symm⟩
  | none =>
    rw [hfront, Option.map_none, Option.none_or, pokeIn] at h
    split at h
    · exact .inr ⟨rfl, block.write a bytes, rfl, (Option.some.inj h).symm⟩
    · simp [pokeIn] at h

private theorem split_last {α : Type} {xs ys front : List α} {x : α} (h : xs ++ ys = front ++ [x])
    (hlength : xs.length ≤ front.length) : ∃ rest, ys = rest ++ [x] ∧ front = xs ++ rest := by
  rcases List.append_eq_append_iff.1 h with ⟨rest, hfront, hys⟩ | ⟨rest, hxs, hlast⟩
  · exact ⟨rest, hys, hfront⟩
  · obtain rfl : rest = [] := by
      rw [hxs, List.length_append] at hlength
      exact List.length_eq_zero_iff.1 (by omega)
    exact ⟨[], by simpa using hlast.symm, by simpa using hxs.symm⟩

end Lists

namespace Target

/-! ### Processes as a builder makes them -/

/-- The process fits in its address space with one more page. -/
def HasRoom (t : Target) : Prop := Fits { t with nextBlock := t.nextBlock + pageSize }

/-- The blocks lie where addresses were handed out. -/
structure Tidy (t : Target) : Prop where
  first : firstBlock ≤ t.nextBlock
  blocks : ∀ block ∈ t.blocks, block.base < t.nextBlock ∧ block.base + block.size ≤ t.nextBlock

/-- The memory is the same, whatever else may have happened. -/
structure SameMemory (t t' : Target) : Prop where
  is64Bit : t'.is64Bit = t.is64Bit
  moduleBase : t'.moduleBase = t.moduleBase
  mapped : t'.mapped = t.mapped
  blocks : t'.blocks = t.blocks

theorem SameMemory.refl (t : Target) : t.SameMemory t := ⟨rfl, rfl, rfl, rfl⟩

private theorem is64Bit_poke? {t t' : Target} {a : UInt32} {bytes : Bytes} (h : t.poke? a bytes = some t') :
    t'.is64Bit = t.is64Bit := by
  rw [poke?_eq] at h
  split at h
  · obtain rfl := Option.some.inj h
    rfl
  · obtain ⟨blocks, -, rfl⟩ := Option.map_eq_some_iff.1 h
    rfl

private theorem is64Bit_write (t : Target) (a : UInt32) (bytes : Bytes) : (t.write a bytes).2.is64Bit = t.is64Bit := by
  unfold write
  by_cases hexited : t.exited = true
  · rw [if_pos hexited]
  rw [if_neg hexited]
  by_cases hrefused : t.writes ∈ t.refusedWrites
  · rw [if_pos hrefused]
  rw [if_neg hrefused]
  cases hpoke : t.poke? a bytes with
  | none => rfl
  | some t' =>
    have hsame := is64Bit_poke? hpoke
    exact hsame

/-! ### Shadows -/

/-- The second process is the first one with a session on it that has its head block at `head`. Both come from
`origin`, and the same bytes were poked into both. -/
structure Shadow (origin : Target) (head : UInt32) (alone t : Target) : Prop where
  is64Bit : t.is64Bit = origin.is64Bit
  moduleBase : t.moduleBase = origin.moduleBase
  shape : origin.SameShape alone
  fresh : ∀ block ∈ origin.blocks, block.base ≠ head.toNat
  mapped : t.mapped.length = alone.mapped.length
  regions : ∃ front block, t.regions = front ++ [block] ∧ block.base = head.toNat ∧
    List.Forall₂ (Region.SameAt fun a => ¬ origin.InSite a) alone.regions front

variable {origin alone t t' : Target} {head a : UInt32} {bytes : Bytes}

private theorem SameShape.length_mapped (h : t.SameShape t') : t'.mapped.length = t.mapped.length := by
  have := congrArg List.length h.mapped
  rwa [List.length_map, List.length_map] at this

private theorem SameShape.trans {t'' : Target} (h : t.SameShape t') (h' : t'.SameShape t'') : t.SameShape t'' :=
  ⟨h'.moduleBase.trans h.moduleBase, h'.mapped.trans h.mapped, h'.blocks.trans h.blocks, h'.nextBlock.trans h.nextBlock⟩

/-- Bytes at a site are written to the patched process only. -/
theorem Shadow.write (h : origin.Shadow head alone t) (hok : (t.write a bytes).1 = .ok ())
    (hsites : ∀ i < bytes.length, origin.InSite (a.toNat + i)) : origin.Shadow head alone (t.write a bytes).2 := by
  obtain ⟨hshape, hwrite⟩ := t.write_spec a bytes
  rw [hok] at hwrite
  obtain ⟨front, block, hregions, hbase, hsame⟩ := h.regions
  refine ⟨(t.is64Bit_write a bytes).trans h.is64Bit, hshape.moduleBase.trans h.moduleBase, h.shape, h.fresh,
    hshape.length_mapped.trans h.mapped, ?_⟩
  simp only [hregions] at hwrite
  rcases pokeIn_concat hwrite with ⟨front', hfront, hregions'⟩ | ⟨-, block', hbase', hregions'⟩
  · exact ⟨front', block, hregions', hbase, sameAt_of_pokeIn hsame hfront fun i hi => not_not_intro (hsites i hi)⟩
  · exact ⟨front, block', hregions', hbase'.trans hbase, hsame⟩

/-- Bytes that are poked go to the same place in both, or into the head block. -/
theorem Shadow.poke (h : origin.Shadow head alone t) (hpoke : t.poke? a bytes = some t') :
    origin.Shadow head ((alone.poke? a bytes).getD alone) t' := by
  obtain ⟨hshape, hregions'⟩ := pokeIn_of_poke? hpoke
  obtain ⟨front, block, hregions, hbase, hsame⟩ := h.regions
  have hbit := (is64Bit_poke? hpoke).trans h.is64Bit
  have hmodule := hshape.moduleBase.trans h.moduleBase
  have hplaces := pokeIn_of_sameAt hsame a.toNat bytes
  rw [hregions] at hregions'
  cases halone : alone.poke? a bytes with
  | none =>
    refine ⟨hbit, hmodule, h.shape, h.fresh, hshape.length_mapped.trans h.mapped, ?_⟩
    rw [poke?_eq_none_iff.1 halone] at hplaces
    rcases pokeIn_concat hregions' with ⟨front', hfront, -⟩ | ⟨-, block', hbase', hnew⟩
    · rw [hfront] at hplaces
      cases hplaces
    · exact ⟨front, block', hnew, hbase'.trans hbase, hsame⟩
  | some alone' =>
    obtain ⟨hshape', halone'⟩ := pokeIn_of_poke? halone
    refine ⟨hbit, hmodule, h.shape.trans hshape', h.fresh, ?_, ?_⟩
    · exact (hshape.length_mapped.trans h.mapped).trans hshape'.length_mapped.symm
    rw [halone'] at hplaces
    rcases pokeIn_concat hregions' with ⟨front', hfront, hnew⟩ | ⟨hfront, -⟩
    · rw [hfront] at hplaces
      cases hplaces with
      | some hsame' => exact ⟨front', block, hnew, hbase, hsame'⟩
    · rw [hfront] at hplaces
      cases hplaces

theorem Shadow.of_sameMemory (h : origin.Shadow head alone t) (hsame : t.SameMemory t') :
    origin.Shadow head alone t' := by
  have hregions : t'.regions = t.regions := by rw [Target.regions, Target.regions, hsame.mapped, hsame.blocks]
  refine ⟨hsame.is64Bit.trans h.is64Bit, hsame.moduleBase.trans h.moduleBase, h.shape, h.fresh, ?_, ?_⟩
  · rw [hsame.mapped]
    exact h.mapped
  · rw [hregions]
    exact h.regions

/-- The head block of a session is a block of its own. -/
theorem shadow_of_filled {size : Nat} (hroom : origin.HasRoom) (htidy : origin.Tidy) (hpos : 0 < bytes.length)
    (hallocate : origin.allocate size = (.ok head, t))
    (hok : (t.write head bytes).1 = .ok ()) : origin.Shadow head origin (t.write head bytes).2 := by
  have hbound : origin.nextBlock + pageSize ≤ 2 ^ 32 := hroom.bounded
  unfold allocate at hallocate
  by_cases hexited : origin.exited = true
  · rw [if_pos hexited] at hallocate
    cases hallocate
  rw [if_neg hexited] at hallocate
  obtain ⟨hhead, ht⟩ := Prod.mk.inj hallocate
  have hbase : head.toNat = origin.nextBlock := by
    rw [← Except.ok.inj hhead]
    have hlt : origin.nextBlock < 2 ^ 32 := by
      unfold pageSize at hbound
      omega
    exact UInt32.toNat_ofNat_of_lt' hlt
  have hregions : t.regions = origin.regions ++ [.zeros origin.nextBlock size] := by
    rw [← ht, regions, regions, List.append_assoc]
  -- nothing else is mapped there
  have hclear : pokeIn origin.regions head.toNat bytes = none := by
    refine pokeIn_eq_none_iff.2 fun region hregion => ?_
    rw [hbase, ← Bool.not_eq_true]
    intro hcovers
    rcases List.mem_append.1 hregion with hmapped | hblock
    · have hclear : origin.nextBlock < firstBlock ∨ origin.nextBlock + pageSize ≤ origin.nextBlock :=
        hroom.clear region hmapped _ (Region.has_of_covers hcovers hpos)
      have := htidy.first
      unfold pageSize at hclear
      omega
    · have := htidy.blocks region hblock
      rw [Region.covers_iff] at hcovers
      omega
  obtain ⟨hshape, hwrite⟩ := t.write_spec head bytes
  rw [hok] at hwrite
  simp only [hregions] at hwrite
  rcases pokeIn_concat hwrite with ⟨front, hfront, -⟩ | ⟨-, block, hblock, hnew⟩
  · rw [hclear] at hfront
    cases hfront
  · refine ⟨(t.is64Bit_write head bytes).trans (by rw [← ht]), hshape.moduleBase.trans (by rw [← ht]), .refl origin, ?_,
      hshape.length_mapped.trans (by rw [← ht]), origin.regions, block, hnew, hblock.trans hbase.symm, ?_⟩
    · intro block hblock
      have := htidy.blocks block hblock
      omega
    · exact List.forall₂_same.2 fun _ _ => ⟨rfl, fun _ _ => rfl⟩

/-- Without its head block the process is as its shadow, but for the sites. -/
theorem Shadow.free (h : origin.Shadow head alone t) (hok : (t.free head).1 = .ok ()) :
    (t.free head).2.is64Bit = origin.is64Bit ∧ (t.free head).2.moduleBase = origin.moduleBase ∧
      List.Forall₂ (Region.SameAt fun a => ¬ origin.InSite a) alone.mapped (t.free head).2.mapped ∧
      List.Forall₂ (Region.SameAt fun a => ¬ origin.InSite a) alone.blocks (t.free head).2.blocks ∧
      ∃ block, t.regions = (t.free head).2.regions ++ [block] := by
  obtain ⟨front, block, hregions, hbase, hsame⟩ := h.regions
  have hlength : alone.regions.length = front.length := hsame.length_eq
  rw [Target.regions, List.length_append] at hlength
  obtain ⟨rest, hblocks, rfl⟩ := split_last hregions (by rw [h.mapped]; omega)
  have hmapped := List.forall₂_take alone.mapped.length hsame
  have hrest := List.forall₂_drop alone.mapped.length hsame
  rw [Target.regions, List.take_left, ← h.mapped, List.take_left] at hmapped
  rw [Target.regions, List.drop_left, ← h.mapped, List.drop_left] at hrest
  -- of the blocks only the last begins where the head block does
  have hothers : ∀ other ∈ rest, ¬ (other.base == head.toNat) = true := by
    intro other hother hsameBase
    have hextents : rest.map Region.extent = origin.blocks.map Region.extent :=
      (map_extent_of_forall₂ hrest).trans h.shape.blocks
    obtain ⟨old, hold, hextent⟩ := exists_mem_of_extents hextents hother
    refine h.fresh old hold ?_
    rw [← beq_iff_eq.1 hsameBase]
    exact congrArg Prod.fst hextent
  have herase : t.blocks.eraseP (·.base == head.toNat) = rest := by
    rw [hblocks, List.eraseP_append_right _ hothers, List.eraseP_cons_of_pos (by simpa using hbase), List.append_nil]
  unfold Target.free at hok ⊢
  by_cases hallocated : t.isAllocated head = true
  · rw [if_pos hallocated]
    refine ⟨h.is64Bit, h.moduleBase, hmapped, ?_, block, ?_⟩
    · rw [herase]
      exact hrest
    · rw [hregions, herase]
      rfl
  · rw [if_neg hallocated] at hok
    cases hok

end Target

end InMemory

end LoadRemover
