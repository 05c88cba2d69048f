import LoadRemover.Proofs.Regions

/-!
# The memory of a process as a map

`Contents` is what memory kept in regions stands for: a partial map from addresses to bytes, and the blocks in use. As
long as no two regions overlap, it does not matter that an access searches them in order: reading shows the map
(`byteIn_of_peekIn`), and writing and releasing change it at the addresses in question only.
-/

namespace LoadRemover.InMemory

/-! ### Maps of bytes -/

/-- A partial map from addresses to bytes, and the blocks in use, each under its address with its size. -/
@[ext] structure Contents where
  byte : Nat → Option UInt8
  block : Nat → Option Nat

namespace Contents

def store (m : Contents) (a : Nat) (bytes : Bytes) : Contents :=
  { m with byte := fun x => if a ≤ x ∧ x < a + bytes.length then bytes[x - a]? else m.byte x }

/-- A new block, full of zeros. -/
def lend (m : Contents) (base size : Nat) : Contents where
  byte x := if base ≤ x ∧ x < base + size then some 0 else m.byte x
  block b := if b = base then some size else m.block b

/-- Without the block at an address. -/
def release (m : Contents) (base : Nat) : Contents where
  byte x := if base ≤ x ∧ x < base + (m.block base).getD 0 then none else m.byte x
  block b := if b = base then none else m.block b

end Contents

/-! ### Bytes in a list of regions -/

def byteIn (rs : List Region) (x : Nat) : Option UInt8 :=
  (rs.find? (·.covers x 1)).map fun region => region.content (x - region.base)

section Lists

variable {rs rs' ss : List Region} {region : Region} {a x n : Nat} {bytes : Bytes}

theorem covers_one_iff : region.covers x 1 = true ↔ region.Has x := Region.covers_iff

theorem byteIn_cons (region : Region) (rest : List Region) (x : Nat) : byteIn (region :: rest) x =
    if region.covers x 1 then some (region.content (x - region.base)) else byteIn rest x := by
  unfold byteIn
  rw [List.find?_cons]
  cases region.covers x 1 <;> rfl

theorem byteIn_append (rs ss : List Region) (x : Nat) : byteIn (rs ++ ss) x = (byteIn rs x).or (byteIn ss x) := by
  unfold byteIn
  rw [List.find?_append, Option.map_or]

theorem byteIn_eq_none_iff : byteIn rs x = none ↔ ∀ region ∈ rs, ¬ region.Has x := by
  unfold byteIn
  rw [Option.map_eq_none_iff, List.find?_eq_none]
  simp only [covers_one_iff]

theorem byteIn_ne_none_iff : byteIn rs x ≠ none ↔ ∃ region ∈ rs, region.Has x := by
  rw [Ne, byteIn_eq_none_iff]
  simp only [not_forall, not_not, exists_prop]

/-- Whether there is a byte depends only on where the regions are. -/
theorem byteIn_eq_none_congr (h : rs'.map Region.extent = rs.map Region.extent) :
    byteIn rs' x = none ↔ byteIn rs x = none := by
  have hsame : ∀ {ss ss' : List Region}, ss'.map Region.extent = ss.map Region.extent →
      (∀ region ∈ ss, ¬ region.Has x) → ∀ region ∈ ss', ¬ region.Has x := by
    intro ss ss' h hout region hregion hhas
    obtain ⟨other, hother, hsame⟩ := exists_mem_of_extents h hregion
    rw [← covers_one_iff, ← Region.covers_of_extent hsame, covers_one_iff] at hhas
    exact hout other hother hhas
  rw [byteIn_eq_none_iff, byteIn_eq_none_iff]
  exact ⟨hsame h.symm, hsame h⟩

private theorem getElem?_read (hcovers : region.covers a n = true) {i : Nat} (hi : i < n) :
    (region.read a n)[i]? = some (region.content (a + i - region.base)) := by
  have hbase := (Region.covers_iff.1 hcovers).1
  rw [Region.read, List.getElem?_map, List.getElem?_range hi, Option.map_some, Nat.sub_add_comm hbase]

/-- What is read is what is there, if no two regions overlap. -/
theorem byteIn_of_peekIn (hapart : rs.Pairwise Region.Disjoint) (h : peekIn rs a n = some bytes) {i : Nat}
    (hi : i < n) : byteIn rs (a + i) = bytes[i]? := by
  induction rs with
  | nil => cases h
  | cons region rest ih =>
    obtain ⟨hregion, hrest⟩ := List.pairwise_cons.1 hapart
    rw [peekIn_cons] at h
    rw [byteIn_cons]
    split at h
    · next hcovers =>
      obtain rfl := Option.some.inj h
      rw [if_pos (covers_one_iff.2 (Region.has_of_covers hcovers hi)), getElem?_read hcovers hi]
    · -- the region that is read comes later, so this one has none of the addresses
      obtain ⟨other, hother, hcovers⟩ := exists_covers_of_peekIn h
      have hout : ¬ region.covers (a + i) 1 = true := fun hhas =>
        hregion other hother _ (covers_one_iff.1 hhas) (Region.has_of_covers hcovers hi)
      rw [if_neg hout, ih hrest h]

private theorem content_write (hcovers : region.covers a bytes.length = true) (hx : region.Has x) :
    some ((region.write a bytes).content (x - region.base)) =
      if a ≤ x ∧ x < a + bytes.length then bytes[x - a]? else some (region.content (x - region.base)) := by
  have hbase := (Region.covers_iff.1 hcovers).1
  have hfrom := hx.1
  by_cases hin : a ≤ x ∧ x < a + bytes.length
  · have hindex : x - region.base - (a - region.base) = x - a := by omega
    have hlt : x - a < bytes.length := by omega
    rw [if_pos hin, Region.write]
    dsimp only
    rw [if_pos (by omega), hindex, List.getD_eq_getElem?_getD, List.getElem?_eq_getElem hlt, Option.getD_some]
  · rw [if_neg hin, Region.write]
    dsimp only
    rw [if_neg (by omega)]

/-- Writing changes what is there at the addresses of the bytes, and nowhere else. -/
theorem byteIn_of_pokeIn (hapart : rs.Pairwise Region.Disjoint) (h : pokeIn rs a bytes = some rs') (x : Nat) :
    byteIn rs' x = if a ≤ x ∧ x < a + bytes.length then bytes[x - a]? else byteIn rs x := by
  induction rs generalizing rs' with
  | nil => cases h
  | cons region rest ih =>
    obtain ⟨hregion, hrest⟩ := List.pairwise_cons.1 hapart
    simp only [pokeIn] at h
    split at h
    · next hcovers =>
      obtain rfl := Option.some.inj h
      rw [byteIn_cons, byteIn_cons, Region.covers_write]
      by_cases hx : region.covers x 1 = true
      · rw [if_pos hx, if_pos hx]
        exact content_write hcovers (covers_one_iff.1 hx)
      · have hout : ¬ (a ≤ x ∧ x < a + bytes.length) := by
          rw [Region.covers_iff] at hcovers hx
          omega
        rw [if_neg hx, if_neg hx, if_neg hout]
    · obtain ⟨rest', hpoke, rfl⟩ := Option.map_eq_some_iff.1 h
      rw [byteIn_cons, byteIn_cons, ih hrest hpoke]
      by_cases hx : region.covers x 1 = true
      · -- the bytes lie in a later region, so this one has none of their addresses
        obtain ⟨other, hother, hcovers⟩ := exists_covers_of_pokeIn hpoke
        have hout : ¬ (a ≤ x ∧ x < a + bytes.length) := fun hin => by
          refine hregion other hother x (covers_one_iff.1 hx) ?_
          rw [Region.covers_iff] at hcovers
          constructor <;> omega
        rw [if_pos hx, if_pos hx, if_neg hout]
      · rw [if_neg hx, if_neg hx]

/-- With the first region of a kind all of its bytes go, and nothing else. -/
theorem byteIn_eraseP {p : Region → Bool} (hapart : rs.Pairwise Region.Disjoint) (h : rs.find? p = some region)
    (x : Nat) : byteIn (rs.eraseP p) x =
      if region.base ≤ x ∧ x < region.base + region.size then none else byteIn rs x := by
  induction rs with
  | nil => cases h
  | cons first rest ih =>
    obtain ⟨hfirst, hrest⟩ := List.pairwise_cons.1 hapart
    by_cases hp : p first = true
    · rw [List.find?_cons_of_pos hp] at h
      obtain rfl := Option.some.inj h
      rw [List.eraseP_cons_of_pos hp, byteIn_cons]
      split
      · next hx => exact byteIn_eq_none_iff.2 fun other hother => hfirst other hother x hx
      · next hx => rw [if_neg (covers_one_iff.not.2 hx)]
    · rw [List.find?_cons_of_neg hp] at h
      rw [List.eraseP_cons_of_neg hp, byteIn_cons, byteIn_cons, ih hrest h]
      by_cases hx : first.covers x 1 = true
      · have hout : ¬ (region.base ≤ x ∧ x < region.base + region.size) :=
          hfirst region (List.mem_of_find?_eq_some h) x (covers_one_iff.1 hx)
        rw [if_pos hx, if_pos hx, if_neg hout]
      · rw [if_neg hx, if_neg hx]

end Lists

/-! ### Blocks by their address -/

def sizeIn (blocks : List Region) (base : Nat) : Option Nat := (blocks.find? (·.base == base)).map (·.size)

section Blocks

variable {blocks blocks' : List Region} {block : Region} {base size : Nat}

private theorem sizeIn_cons (block : Region) (rest : List Region) (base : Nat) :
    sizeIn (block :: rest) base = if block.base = base then some block.size else sizeIn rest base := by
  unfold sizeIn
  rw [List.find?_cons]
  by_cases h : block.base = base
  · rw [if_pos h, beq_iff_eq.2 h]
    rfl
  · rw [if_neg h, beq_eq_false_iff_ne.2 h]

theorem sizeIn_congr (h : blocks'.map Region.extent = blocks.map Region.extent) (base : Nat) :
    sizeIn blocks' base = sizeIn blocks base := by
  have hextents (bs : List Region) : sizeIn bs base = ((bs.map Region.extent).find? (·.1 == base)).map (·.2) := by
    rw [List.find?_map, Option.map_map]
    rfl
  rw [hextents, hextents, h]

theorem sizeIn_eq_none_iff : sizeIn blocks base = none ↔ ∀ block ∈ blocks, block.base ≠ base := by
  unfold sizeIn
  rw [Option.map_eq_none_iff, List.find?_eq_none]
  simp only [beq_iff_eq, ne_eq]

theorem find?_of_sizeIn (h : sizeIn blocks base = some size) :
    ∃ block, blocks.find? (·.base == base) = some block ∧ block.base = base ∧ block.size = size := by
  obtain ⟨block, hfind, hsize⟩ := Option.map_eq_some_iff.1 h
  have hbase : block.base = base := by simpa using List.find?_some hfind
  exact ⟨block, hfind, hbase, hsize⟩

/-- Of the blocks that begin at one address the first one counts, and here there is only one. -/
theorem sizeIn_of_mem (hnodup : (blocks.map (·.base)).Nodup) (h : block ∈ blocks) :
    sizeIn blocks block.base = some block.size := by
  induction blocks with
  | nil => cases h
  | cons first rest ih =>
    rw [List.map_cons, List.nodup_cons] at hnodup
    rw [sizeIn_cons]
    rcases List.mem_cons.1 h with rfl | hmem
    · exact if_pos rfl
    · have hother : first.base ≠ block.base := by
        intro hsame
        refine hnodup.1 ?_
        rw [hsame]
        exact List.mem_map_of_mem hmem
      rw [if_neg hother, ih hnodup.2 hmem]

theorem sizeIn_concat (hnew : ∀ block ∈ blocks, block.base ≠ base) (b : Nat) :
    sizeIn (blocks ++ [.zeros base size]) b = if b = base then some size else sizeIn blocks b := by
  induction blocks with
  | nil =>
    rw [List.nil_append, sizeIn_cons]
    exact if_congr eq_comm rfl rfl
  | cons first rest ih =>
    obtain ⟨hfirst, hrest⟩ := List.forall_mem_cons.1 hnew
    rw [List.cons_append, sizeIn_cons, sizeIn_cons, ih hrest]
    by_cases hb : first.base = b
    · rw [if_pos hb, if_pos hb, if_neg (hb ▸ hfirst)]
    · rw [if_neg hb, if_neg hb]

theorem sizeIn_eraseP (hnodup : (blocks.map (·.base)).Nodup) (base b : Nat) :
    sizeIn (blocks.eraseP (·.base == base)) b = if b = base then none else sizeIn blocks b := by
  induction blocks with
  | nil => exact (ite_self none).symm
  | cons first rest ih =>
    rw [List.map_cons, List.nodup_cons] at hnodup
    by_cases hfirst : first.base = base
    · subst hfirst
      rw [List.eraseP_cons_of_pos (by simp), sizeIn_cons]
      by_cases hb : first.base = b
      · subst hb
        rw [if_pos rfl, sizeIn_eq_none_iff]
        intro block hblock hsame
        refine hnodup.1 ?_
        rw [← hsame]
        exact List.mem_map_of_mem hblock
      · rw [if_neg hb, if_neg (Ne.symm hb)]
    · rw [List.eraseP_cons_of_neg (by simpa using hfirst), sizeIn_cons, sizeIn_cons, ih hnodup.2]
      by_cases hb : first.base = b
      · rw [if_pos hb, if_pos hb, if_neg (hb ▸ hfirst)]
      · rw [if_neg hb, if_neg hb]

end Blocks

/-! ### Processes -/

def Target.contents (t : Target) : Contents := ⟨byteIn t.regions, sizeIn t.blocks⟩

end LoadRemover.InMemory
