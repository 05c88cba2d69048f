import LoadRemover.Locate
import LoadRemover.Proofs.Execution
import LoadRemover.Proofs.Layout
import LoadRemover.Proofs.Patching

/-!
# The code at the sites

Both known builds have their sites at the same places, six bytes at each, and no two of them overlap
(`Build.apart_of_ne`), whatever the address of the module. The six bytes are instructions that work on the stack and
do not read memory (`reads_preamble`), and nothing in them depends on where they lie. The block made for them has a
layout for each site (`sites_zip`).
-/

namespace LoadRemover

open X86

def Build.snapshots (build : Build) (moduleBase : UInt32) : List Snapshot :=
  Site.all.map fun site => ⟨site, preamble site build moduleBase⟩

section Preamble

variable (site : Site) (build : Build) (moduleBase : UInt32)

theorem preamble_base : (preamble site build moduleBase).base = moduleBase + (build.entry site).offset := by
  unfold preamble
  simp only
  cases (build.entry site).text <;> rfl

theorem preamble_relocations : (preamble site build moduleBase).relocations = [] := by
  unfold preamble
  simp only
  cases (build.entry site).text <;> rfl

@[simp] theorem size_preamble : (preamble site build moduleBase).size = 6 := by
  unfold preamble
  simp only
  cases (build.entry site).text <;> rfl

private theorem fit_preamble : (preamble site build moduleBase).Fit := (Code.fit_emptyAt _).emitAll _

/-- The first instructions of a site work on the stack, and they do not read memory. -/
theorem reads_preamble : ∃ operations, Reads (preamble site build moduleBase).bytes operations ∧
    (∀ o ∈ operations, o.isStack = true) ∧ (∀ o ∈ operations, o.isBlind = true) ∧ Machine.depth operations ≤ 44 := by
  unfold preamble
  simp only
  cases (build.entry site).text with
  | none =>
    obtain ⟨bytes, hbytes, hreads⟩ := (Code.emptyAt (moduleBase + (build.entry site).offset)).reads_emitAll
      [.subImmediate .esp gameFrame false, .pushRegister .esi, .moveRegister .esi .ecx]
    replace hreads : Reads bytes [.subtract .esp gameFrame.toUInt32, .pushRegister .esi, .move .esi .ecx] := hreads
    rw [hbytes]
    exact ⟨_, hreads, by decide, by decide, by decide⟩
  | some text =>
    obtain ⟨bytes, hbytes, hreads⟩ := (Code.emptyAt (moduleBase + (build.entry site).offset)).reads_emitAll
      [.pushRegister .esi, .pushImmediate (moduleBase + text)]
    replace hreads : Reads bytes [.pushRegister .esi, .pushWord (moduleBase + text)] := hreads
    rw [hbytes]
    refine ⟨_, hreads, ?_, ?_, ?_⟩
    · simp [Operation.isStack]
    · simp [Operation.isBlind]
    · simp [Machine.depth, Operation.depth]

theorem head?_preamble : (preamble site build moduleBase).bytes.head? ≠ some 0xE9 := by
  unfold preamble
  simp only
  cases (build.entry site).text with
  | none =>
    have hbytes : ((Code.emptyAt (moduleBase + (build.entry site).offset)).emitAll [.subImmediate .esp gameFrame false,
        .pushRegister .esi, .moveRegister .esi .ecx]).bytes.head? = some 0x83 := rfl
    rw [hbytes]
    decide
  | some text =>
    have hbytes : ((Code.emptyAt (moduleBase + (build.entry site).offset)).emitAll
        [.pushRegister .esi, .pushImmediate (moduleBase + text)]).bytes.head? = some 0x56 := rfl
    rw [hbytes]
    decide

end Preamble

theorem Site.mem_all (site : Site) : site ∈ Site.all := by
  cases site <;> decide

theorem Build.mem_snapshots (build : Build) (moduleBase : UInt32) (site : Site) :
    ⟨site, preamble site build moduleBase⟩ ∈ build.snapshots moduleBase :=
  List.mem_map_of_mem site.mem_all

/-- The offset of a site, which is the same in all known builds. -/
def Site.offset : Site → UInt32
  | game => 0x3B80
  | movie => 0x3860
  | frontend => 0x38E0
  | raceEditor => 0x3AE0
  | carViewer => 0x3B30

theorem Site.offset_lt (site : Site) : site.offset.toNat < 0x4000 := by
  cases site <;> decide

theorem Site.offset_apart {site site' : Site} (hne : site ≠ site') :
    site.offset.toNat + 6 ≤ site'.offset.toNat ∨ site'.offset.toNat + 6 ≤ site.offset.toNat := by
  cases site <;> cases site' <;> first | exact absurd rfl hne | decide

namespace Build

variable {build : Build}

theorem offset_entry (h : build ∈ known) (site : Site) : (build.entry site).offset = site.offset := by
  have hall : ∀ build ∈ known, ∀ site ∈ Site.all, (build.entry site).offset = site.offset := by decide
  exact hall build h site site.mem_all

theorem apart_of_ne (h : build ∈ known) (moduleBase : UInt32) {site site' : Site} (hne : site ≠ site') :
    Apart (preamble site build moduleBase).base 6 (preamble site' build moduleBase).base 6 := by
  have hapart := Site.offset_apart hne
  rw [preamble_base, preamble_base, offset_entry h, offset_entry h]
  intro a ha ha'
  obtain ⟨i, hi, -, rfl⟩ := ha.exists
  obtain ⟨j, hj, -, heq⟩ := ha'.exists
  have hsum : site.offset + UInt32.ofNat i = site'.offset + UInt32.ofNat j := by grind
  have hnat := congrArg UInt32.toNat hsum
  have := site.offset_lt
  have := site'.offset_lt
  simp only [UInt32.toNat_add, UInt32.toNat_ofNat'] at hnat
  omega

end Build

/-! ### The block for a build -/

theorem Build.fit_snapshots (build : Build) (moduleBase : UInt32) : ∀ s ∈ build.snapshots moduleBase, s.code.Fit := by
  intro s hs
  obtain ⟨site, -, rfl⟩ := List.mem_map.1 hs
  exact fit_preamble site build moduleBase

theorem Build.length_snapshots {build : Build} {moduleBase : UInt32} {s : Snapshot}
    (h : s ∈ build.snapshots moduleBase) : s.code.bytes.length = 6 := by
  obtain ⟨site, -, rfl⟩ := List.mem_map.1 h
  exact size_preamble site build moduleBase

private theorem size_buildAt_snapshots (build : Build) (moduleBase base : UInt32) :
    (Head.buildAt base (build.snapshots moduleBase)).code.size = 162 := by
  have hsize : ∀ site, (preamble site build moduleBase).size + 5 = 11 := by simp
  rw [Head.size_buildAt (build.fit_snapshots moduleBase)]
  simp only [Build.snapshots, List.map_map, Function.comp_def, hsize]
  decide

theorem size_build (build : Build) (moduleBase : UInt32) : (Head.build (build.snapshots moduleBase)).code.size = 162 :=
  size_buildAt_snapshots build moduleBase Code.unplaced

theorem size_placed (build : Build) (moduleBase base : UInt32) :
    (Head.placed (build.snapshots moduleBase) base).code.size = 162 := by
  rw [Head.placed, Head.moveTo_build (build.fit_snapshots moduleBase)]
  exact size_buildAt_snapshots build moduleBase base

/-- The sites of a block with their code: each site's layout, and every one of them once. -/
theorem sites_zip (build : Build) (moduleBase base : UInt32) :
    ((Head.build (build.snapshots moduleBase)).sites.zip (build.snapshots moduleBase)).map (·.2) =
        build.snapshots moduleBase ∧
      ∀ pair ∈ (Head.build (build.snapshots moduleBase)).sites.zip (build.snapshots moduleBase),
        (Head.placed (build.snapshots moduleBase) base).Lays pair.2 pair.1 := by
  have hlays := Head.lays_buildAt base (build.snapshots moduleBase)
  rw [← Head.moveTo_build (build.fit_snapshots moduleBase)] at hlays
  have hlength : (build.snapshots moduleBase).length = (Head.build (build.snapshots moduleBase)).sites.length :=
    hlays.length_eq
  refine ⟨List.map_snd_zip (Nat.le_of_eq hlength), fun pair hpair => ?_⟩
  exact (List.forall₂_iff_zip.1 hlays.flip).2 hpair

/-- Every site is among those that are redirected. -/
theorem sitesOf_pairs (build : Build) (moduleBase : UInt32) (site : Site) :
    SitesOf (Head.pairs (build.snapshots moduleBase)) site := by
  have hsnapshot := build.mem_snapshots moduleBase site
  rw [← (sites_zip build moduleBase 0).1] at hsnapshot
  obtain ⟨pair, hpair, hsame⟩ := List.mem_map.1 hsnapshot
  exact ⟨pair, hpair, congrArg Snapshot.site hsame⟩

end LoadRemover
