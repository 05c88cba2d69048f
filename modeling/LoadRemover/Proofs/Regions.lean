import Mathlib.Data.List.Pairwise
import LoadRemover.Target.InMemory

/-!
# Memory kept in regions

What single accesses do to the memory of a process, as `Target.peek?` shows it. Regions may overlap here: an access
takes the first region that holds all of its range, and writing leaves the extent of every region as it was. So what
was written is read back, and a range apart from it is not touched; only a longer range from the same address needs
that no other region begins to hold it (`peekIn_of_pokeIn_front`).
-/

namespace LoadRemover

namespace Region

/-- The addresses of a region: where they begin, and how many they are. -/
def extent (region : Region) : Nat × Nat := (region.base, region.size)

def Has (region : Region) (a : Nat) : Prop := region.base ≤ a ∧ a < region.base + region.size

def Disjoint (r s : Region) : Prop := ∀ a, r.Has a → ¬ s.Has a

instance : Std.Symm Disjoint where
  symm _ _ h a hs hr := h a hr hs

variable {region : Region} {a b n : Nat} {bytes : Bytes}

theorem covers_iff : region.covers a n = true ↔ region.base ≤ a ∧ a + n ≤ region.base + region.size := by
  simp [covers]

theorem covers_of_extent {r s : Region} (h : r.extent = s.extent) : r.covers a n = s.covers a n := by
  obtain ⟨hbase, hsize⟩ := Prod.mk.inj h
  unfold covers
  rw [hbase, hsize]

theorem has_of_covers (h : region.covers a n = true) {i : Nat} (hi : i < n) : region.Has (a + i) := by
  rw [covers_iff] at h
  constructor <;> omega

private theorem read_write_apart (h : region.covers a bytes.length = true) (h' : region.covers b n = true)
    (hapart : a + bytes.length ≤ b ∨ b + n ≤ a) : (region.write a bytes).read b n = region.read b n := by
  rw [covers_iff] at h h'
  refine List.map_congr_left fun i hi => ?_
  have hi := List.mem_range.1 hi
  simp only [write]
  rw [if_neg]
  omega

/-- A longer range shows what was written, and then what was there. -/
private theorem read_write_front (hlength : bytes.length ≤ n) :
    (region.write a bytes).read a n = bytes ++ (region.read a n).drop bytes.length := by
  apply List.ext_getElem
  · simp only [length_read, List.length_append, List.length_drop]
    omega
  · intro i hi _
    rw [length_read] at hi
    by_cases hin : i < bytes.length
    · rw [List.getElem_append_left hin]
      simp only [read, write, List.getElem_map, List.getElem_range]
      rw [if_pos ⟨by omega, by omega⟩, Nat.add_sub_cancel_left, List.getD_eq_getElem?_getD,
        List.getElem?_eq_getElem hin, Option.getD_some]
    · rw [List.getElem_append_right (by omega), List.getElem_drop]
      simp only [read, write, List.getElem_map, List.getElem_range]
      rw [if_neg (by omega)]
      congr 1
      omega

/-- The second region is the first with other bytes in it, but not at the addresses to keep. -/
structure SameAt (keep : Nat → Prop) (r r' : Region) : Prop where
  extent : r'.extent = r.extent
  content : ∀ i, keep (r.base + i) → r'.content i = r.content i

private theorem SameAt.getElem?_read {keep : Nat → Prop} {r r' : Region} (h : r.SameAt keep r')
    (hcovers : r.covers a n = true)
    {i : Nat} (hkeep : i < n → keep (a + i)) : (r'.read a n)[i]? = (r.read a n)[i]? := by
  by_cases hi : i < n
  · rw [covers_iff] at hcovers
    have hbase : r'.base = r.base := congrArg Prod.fst h.extent
    have haddress : r.base + (a - r.base + i) = a + i := by omega
    simp only [read, List.getElem?_map, List.getElem?_range hi, Option.map_some, hbase]
    rw [h.content _ (haddress ▸ hkeep hi)]
  · rw [List.getElem?_eq_none (by rw [length_read]; omega), List.getElem?_eq_none (by rw [length_read]; omega)]

end Region

namespace InMemory

/-! ### Lists of regions -/

def peekIn (regions : List Region) (a n : Nat) : Option Bytes :=
  (regions.find? (·.covers a n)).map (·.read a n)

/-- The regions after bytes were put into the first one that can hold them. -/
def pokeIn : List Region → Nat → Bytes → Option (List Region)
  | [], _, _ => none
  | region :: rest, a, bytes =>
    if region.covers a bytes.length then some (region.write a bytes :: rest)
    else (pokeIn rest a bytes).map (region :: ·)

section Lists

variable {rs rs' : List Region} {a b n : Nat} {bytes : Bytes}

/-- Where a list of regions lies is known from the extents. -/
theorem exists_mem_of_extents (h : rs'.map Region.extent = rs.map Region.extent) {region : Region}
    (hregion : region ∈ rs') : ∃ old ∈ rs, old.extent = region.extent := by
  have hextent : region.extent ∈ rs.map Region.extent := by
    rw [← h]
    exact List.mem_map_of_mem hregion
  exact List.mem_map.1 hextent

theorem pairwise_disjoint_congr (h : rs'.map Region.extent = rs.map Region.extent)
    (hapart : rs.Pairwise Region.Disjoint) : rs'.Pairwise Region.Disjoint := by
  let apart (e f : Nat × Nat) : Prop := Region.Disjoint ⟨e.1, e.2, fun _ => 0⟩ ⟨f.1, f.2, fun _ => 0⟩
  have hextents : (rs.map Region.extent).Pairwise apart := List.pairwise_map.2 hapart
  rw [← h, List.pairwise_map] at hextents
  exact hextents

theorem peekIn_append (rs ss : List Region) (a n : Nat) :
    peekIn (rs ++ ss) a n = (peekIn rs a n).or (peekIn ss a n) := by
  unfold peekIn
  rw [List.find?_append, Option.map_or]

theorem peekIn_cons (region : Region) (rest : List Region) (a n : Nat) :
    peekIn (region :: rest) a n = if region.covers a n then some (region.read a n) else peekIn rest a n := by
  unfold peekIn
  rw [List.find?_cons]
  cases region.covers a n <;> rfl

theorem length_of_peekIn (h : peekIn rs a n = some bytes) : bytes.length = n := by
  obtain ⟨region, -, rfl⟩ := Option.map_eq_some_iff.1 h
  exact region.length_read a n

theorem exists_covers_of_peekIn (h : peekIn rs a n = some bytes) : ∃ region ∈ rs, region.covers a n = true := by
  obtain ⟨region, hfind, -⟩ := Option.map_eq_some_iff.1 h
  exact ⟨region, List.mem_of_find?_eq_some hfind, by simpa using List.find?_some hfind⟩

theorem isSome_peekIn (h : ∃ region ∈ rs, region.covers a n = true) : (peekIn rs a n).isSome := by
  unfold peekIn
  rw [Option.isSome_map, List.find?_isSome]
  exact h

theorem isSome_peekIn_congr (h : rs'.map Region.extent = rs.map Region.extent) :
    (peekIn rs' a n).isSome = (peekIn rs a n).isSome := by
  induction rs generalizing rs' with
  | nil => rw [List.map_eq_nil_iff.1 h]
  | cons r rest ih =>
    obtain ⟨r', rest', rfl, hr, hrest⟩ := List.map_eq_cons_iff.1 h
    rw [peekIn_cons, peekIn_cons, Region.covers_of_extent hr]
    split
    · rfl
    · exact ih hrest

theorem pokeIn_eq_none_iff : pokeIn rs a bytes = none ↔ ∀ r ∈ rs, r.covers a bytes.length = false := by
  induction rs with
  | nil => simp [pokeIn]
  | cons r rest ih =>
    rw [pokeIn, List.forall_mem_cons]
    cases r.covers a bytes.length with
    | true => simp
    | false => simpa using ih

theorem exists_covers_of_pokeIn (h : pokeIn rs a bytes = some rs') :
    ∃ region ∈ rs, region.covers a bytes.length = true := by
  by_contra hnone
  have hout : ∀ region ∈ rs, region.covers a bytes.length = false :=
    fun region hregion => Bool.eq_false_iff.2 fun hcovers => hnone ⟨region, hregion, hcovers⟩
  rw [pokeIn_eq_none_iff.2 hout] at h
  cases h

theorem pokeIn_append (rs ss : List Region) (a : Nat) (bytes : Bytes) :
    pokeIn (rs ++ ss) a bytes = ((pokeIn rs a bytes).map (· ++ ss)).or ((pokeIn ss a bytes).map (rs ++ ·)) := by
  induction rs with
  | nil => simp [pokeIn]
  | cons r rest ih =>
    simp only [List.cons_append, pokeIn, ih]
    split
    · rfl
    · cases pokeIn rest a bytes <;> cases pokeIn ss a bytes <;> rfl

private theorem extent_pokeIn (h : pokeIn rs a bytes = some rs') : rs'.map Region.extent = rs.map Region.extent := by
  induction rs generalizing rs' with
  | nil => simp [pokeIn] at h
  | cons r rest ih =>
    simp only [pokeIn] at h
    split at h
    · obtain rfl := Option.some.inj h
      rfl
    · obtain ⟨rest', hrest, rfl⟩ := Option.map_eq_some_iff.1 h
      rw [List.map_cons, List.map_cons, ih hrest]

theorem peekIn_of_pokeIn (h : pokeIn rs a bytes = some rs') : peekIn rs' a bytes.length = some bytes := by
  induction rs generalizing rs' with
  | nil => simp [pokeIn] at h
  | cons r rest ih =>
    simp only [pokeIn] at h
    split at h
    · rename_i hcovers
      obtain rfl := Option.some.inj h
      rw [peekIn_cons, Region.covers_write, if_pos hcovers, Region.read_write]
    · rename_i hcovers
      obtain ⟨rest', hrest, rfl⟩ := Option.map_eq_some_iff.1 h
      rw [peekIn_cons, if_neg hcovers, ih hrest]

theorem peekIn_of_pokeIn_apart (h : pokeIn rs a bytes = some rs') (hapart : a + bytes.length ≤ b ∨ b + n ≤ a) :
    peekIn rs' b n = peekIn rs b n := by
  induction rs generalizing rs' with
  | nil => simp [pokeIn] at h
  | cons r rest ih =>
    simp only [pokeIn] at h
    split at h
    · rename_i hcovers
      obtain rfl := Option.some.inj h
      rw [peekIn_cons, peekIn_cons, Region.covers_write]
      split
      · rename_i hread
        rw [Region.read_write_apart hcovers hread hapart]
      · rfl
    · obtain ⟨rest', hrest, rfl⟩ := Option.map_eq_some_iff.1 h
      rw [peekIn_cons, peekIn_cons, ih hrest]

/-- A longer range shows what was written, and then what was there, if the regions that hold what was written hold
the longer range as well. -/
theorem peekIn_of_pokeIn_front (h : pokeIn rs a bytes = some rs') (hlength : bytes.length ≤ n)
    (hfull : ∀ r ∈ rs, r.covers a bytes.length = true → r.covers a n = true) :
    peekIn rs' a n = (peekIn rs a n).map fun old => bytes ++ old.drop bytes.length := by
  induction rs generalizing rs' with
  | nil => simp [pokeIn] at h
  | cons r rest ih =>
    simp only [pokeIn] at h
    split at h
    · rename_i hcovers
      have hr := hfull r (List.mem_cons_self ..) hcovers
      obtain rfl := Option.some.inj h
      rw [peekIn_cons, peekIn_cons, Region.covers_write, if_pos hr, if_pos hr, Region.read_write_front hlength]
      rfl
    · rename_i hcovers
      have hr : ¬ r.covers a n = true := by
        rw [Region.covers_iff] at hcovers ⊢
        omega
      obtain ⟨rest', hrest, rfl⟩ := Option.map_eq_some_iff.1 h
      rw [peekIn_cons, peekIn_cons, if_neg hr, if_neg hr, ih hrest fun r hr => hfull r (List.mem_cons_of_mem _ hr)]

theorem peekIn_of_sameAt {keep : Nat → Prop} (h : List.Forall₂ (Region.SameAt keep) rs rs')
    (hkeep : ∀ i < n, keep (a + i)) : peekIn rs' a n = peekIn rs a n := by
  induction h with
  | nil => rfl
  | cons hr _ ih =>
    rw [peekIn_cons, peekIn_cons, Region.covers_of_extent hr.extent, ih]
    split
    · rename_i hcovers
      congr 1
      exact List.ext_getElem? fun i => hr.getElem?_read hcovers (hkeep i)
    · rfl

/-- Where only the first byte of a region may change, only the first byte of a range may. -/
theorem tail_peekIn_of_sameAt (h : List.Forall₂ (fun r => r.SameAt (· ≠ r.base)) rs rs') (a n : Nat) :
    (peekIn rs' a n).map List.tail = (peekIn rs a n).map List.tail := by
  induction h with
  | nil => rfl
  | @cons r r' _ _ hr _ ih =>
    rw [peekIn_cons, peekIn_cons, Region.covers_of_extent hr.extent]
    split
    · rename_i hcovers
      have hbase := (Region.covers_iff.1 hcovers).1
      rw [Option.map_some, Option.map_some]
      congr 1
      refine List.ext_getElem? fun i => ?_
      rw [List.getElem?_tail, List.getElem?_tail]
      exact hr.getElem?_read hcovers fun _ => by omega
    · exact ih

private theorem modify_findIdx?_eq_pokeIn (rs : List Region) (a : Nat) (bytes : Bytes) :
    ((rs.findIdx? (·.covers a bytes.length)).map fun i => rs.modify i (·.write a bytes)) = pokeIn rs a bytes := by
  induction rs with
  | nil => rfl
  | cons r rest ih =>
    rw [List.findIdx?_cons, pokeIn, ← ih]
    split
    · rfl
    · rw [Option.map_map, Option.map_map]
      rfl

end Lists

/-! ### Accesses to a process -/

namespace Target

/-- The second process differs from the first in what its memory holds and in how accesses to it go, and not in where
its memory is. -/
structure SameShape (t t' : Target) : Prop where
  moduleBase : t'.moduleBase = t.moduleBase
  mapped : t'.mapped.map Region.extent = t.mapped.map Region.extent
  blocks : t'.blocks.map Region.extent = t.blocks.map Region.extent
  nextBlock : t'.nextBlock = t.nextBlock

variable {t t' : Target} {a b : UInt32} {bytes : Bytes} {n size : Nat}

theorem SameShape.refl (t : Target) : t.SameShape t := ⟨rfl, rfl, rfl, rfl⟩

theorem SameShape.bases (h : t.SameShape t') : t'.blocks.map (·.base) = t.blocks.map (·.base) := by
  have hextents := congrArg (List.map Prod.fst) h.blocks
  rwa [List.map_map, List.map_map] at hextents

theorem SameShape.isAllocated (h : t.SameShape t') (a : UInt32) : t'.isAllocated a = t.isAllocated a := by
  have hany := congrArg (List.any · (· == a.toNat)) h.bases
  rwa [List.any_map, List.any_map] at hany

theorem poke?_eq (t : Target) (a : UInt32) (bytes : Bytes) : t.poke? a bytes =
    match pokeIn t.mapped a.toNat bytes with
    | some mapped => some { t with mapped }
    | none => (pokeIn t.blocks a.toNat bytes).map fun blocks => { t with blocks } := by
  have hput : ∀ rs : List Region, (do
      let i ← rs.findIdx? (·.covers a.toNat bytes.length)
      return rs.modify i (·.write a.toNat bytes) : Option (List Region)) = pokeIn rs a.toNat bytes := by
    intro rs
    rw [← modify_findIdx?_eq_pokeIn]
    cases rs.findIdx? (·.covers a.toNat bytes.length) <;> rfl
  cases hmapped : pokeIn t.mapped a.toNat bytes <;> simp only [poke?, hput, hmapped]

theorem poke?_eq_none_iff : t.poke? a bytes = none ↔ pokeIn t.regions a.toNat bytes = none := by
  rw [poke?_eq, regions, pokeIn_append]
  cases pokeIn t.mapped a.toNat bytes <;> cases pokeIn t.blocks a.toNat bytes <;> simp

theorem pokeIn_of_poke? (h : t.poke? a bytes = some t') :
    t.SameShape t' ∧ pokeIn t.regions a.toNat bytes = some t'.regions := by
  rw [poke?_eq] at h
  unfold regions
  rw [pokeIn_append]
  cases hmapped : pokeIn t.mapped a.toNat bytes with
  | some mapped =>
    rw [hmapped] at h
    obtain rfl := Option.some.inj h
    exact ⟨⟨rfl, extent_pokeIn hmapped, rfl, rfl⟩, rfl⟩
  | none =>
    rw [hmapped] at h
    obtain ⟨blocks, hblocks, rfl⟩ := Option.map_eq_some_iff.1 h
    rw [hblocks]
    exact ⟨⟨rfl, rfl, extent_pokeIn hblocks, rfl⟩, rfl⟩

/-- A write puts its bytes, or it leaves the memory as it was. -/
theorem write_spec (t : Target) (a : UInt32) (bytes : Bytes) :
    t.SameShape (t.write a bytes).2 ∧
      match (t.write a bytes).1 with
      | .ok _ => pokeIn t.regions a.toNat bytes = some (t.write a bytes).2.regions
      | .error _ => (t.write a bytes).2.regions = t.regions := by
  unfold write
  by_cases hexited : t.exited = true
  · rw [if_pos hexited]
    exact ⟨.refl t, rfl⟩
  rw [if_neg hexited]
  by_cases hrefused : t.writes ∈ t.refusedWrites
  · rw [if_pos hrefused]
    exact ⟨⟨rfl, rfl, rfl, rfl⟩, rfl⟩
  rw [if_neg hrefused]
  cases hpoke : t.poke? a bytes with
  | none => exact ⟨.refl t, rfl⟩
  | some t' =>
    obtain ⟨hshape, hregions⟩ := pokeIn_of_poke? hpoke
    exact ⟨⟨hshape.moduleBase, hshape.mapped, hshape.blocks, hshape.nextBlock⟩, hregions⟩

theorem peek?_of_read (h : t.read a n = .ok bytes) : t.peek? a n = some bytes := by
  unfold read at h
  split at h
  · cases h
  split at h
  · cases h
  split at h
  · obtain rfl := Except.ok.inj h
    assumption
  · cases h

theorem length_of_peek? (h : t.peek? a n = some bytes) : bytes.length = n := length_of_peekIn h

theorem peek?_congr (h : t'.regions = t.regions) (a : UInt32) (n : Nat) : t'.peek? a n = t.peek? a n := by
  unfold peek?
  rw [h]

theorem peek?_of_mapped (h : peekIn t.mapped a.toNat n = some bytes) : t.peek? a n = some bytes := by
  have hregions : t.peek? a n = peekIn (t.mapped ++ t.blocks) a.toNat n := rfl
  rw [hregions, peekIn_append, h, Option.some_or]

end Target

end InMemory

end LoadRemover
