import LoadRemover.Proofs.Preambles
import LoadRemover.Proofs.Regions

/-!
# Where the sites of a process lead

A site is `Intact` when it holds what it held when its process began, and `Redirected` when it holds a jump to its
wrapper in a head block that is allocated and complete. `Target.Sound` says that every site is one or the other, and
it is what all accesses to a process have to keep. An access is judged by two conditions:

* sites and blocks never overlap as long as the process `Fits` in its address space, so an access to one of them
  leaves the others alone (`Sound.apart_of_block`);
* a block may go only when all sites are intact (`IntactBut`).
-/

namespace LoadRemover.InMemory

namespace Target

/-! ### Processes as they should be -/

def firstBlock : Nat := 0x1000000

/-- Nothing was allocated in the process yet. -/
structure Fresh (t : Target) : Prop where
  blocks : t.blocks = []
  nextBlock : t.nextBlock = firstBlock

/-- The mapped regions overlap neither each other nor the addresses handed out so far, and these did not overflow. -/
structure Fits (t : Target) : Prop where
  apart : t.mapped.Pairwise Region.Disjoint
  clear : ∀ region ∈ t.mapped, ∀ a, region.Has a → a < firstBlock ∨ t.nextBlock ≤ a
  bounded : t.nextBlock ≤ 2 ^ 32

/-- The second process is a later state of the first: its mapped memory is where it was, and no address was taken
back. -/
structure Step (t t' : Target) : Prop where
  moduleBase : t'.moduleBase = t.moduleBase
  mapped : t'.mapped.map Region.extent = t.mapped.map Region.extent
  nextBlock : t.nextBlock ≤ t'.nextBlock

/-! ### Sites and blocks -/

def siteAddress (t : Target) (site : Site) : UInt32 := t.moduleBase + site.offset

/-- The six bytes at a site. -/
def entry (t : Target) (site : Site) : Option Bytes := t.peek? (t.siteAddress site) 6

/-- The site holds what it held in the beginning. -/
def Intact (origin t : Target) (site : Site) : Prop := t.entry site = origin.entry site

/-- The block of the code is allocated and holds the code, but for its first byte, which is the loading flag. -/
def HoldsHead (t : Target) (code : Code) : Prop :=
  t.isAllocated code.base = true ∧ ∃ flag, t.peek? code.base code.size = some (flag :: code.bytes.tail)

/-- The site holds a jump to its wrapper in a head block, and then the last of the bytes that it held in the
beginning. The wrapper begins in the block, behind the flag. -/
def JumpsInto (origin t : Target) (site : Site) (head : Head) : Prop :=
  ∃ layout ∈ head.sites, layout.site = site ∧ 0 < layout.wrapper ∧ layout.wrapper < head.code.size ∧
    ∃ (relative : UInt32) (first : Bytes) (sixth : UInt8),
      t.siteAddress site + 5 + relative = head.wrapperAddress layout ∧
      t.entry site = some (0xE9 :: Bytes.littleEndian32 relative ++ [sixth]) ∧
      origin.entry site = some (first ++ [sixth])

/-- The site jumps to its wrapper in the head block of a known build, which is allocated and complete. -/
def Redirected (origin t : Target) (site : Site) : Prop :=
  ∃ build ∈ Build.known, ∃ base, t.HoldsHead (Head.placed (build.snapshots t.moduleBase) base).code ∧
    origin.JumpsInto t site (Head.placed (build.snapshots t.moduleBase) base)

/-- The process began as one of the build. -/
def Own (origin : Target) (build : Build) : Prop :=
  ∀ site, origin.entry site = some (preamble site build origin.moduleBase).bytes

/-- What holds of every process and its beginning, `origin`: no site leads anywhere else, and blocks are found in
processes of known builds only. -/
structure Sound (origin t : Target) : Prop where
  fresh : origin.Fresh
  step : origin.Step t
  blocks : ∀ block ∈ t.blocks,
    firstBlock ≤ block.base ∧ block.size ≤ pageSize ∧ block.base + pageSize ≤ t.nextBlock
  owned : t.Fits → t.blocks ≠ [] → ∃ build, origin.Own build
  sites : t.Fits → ∀ site, origin.Intact t site ∨ origin.Redirected t site

/-- The process is of the build, and only the given sites may have changed. -/
def IntactBut (origin : Target) (build : Build) (sites : Site → Prop) (t : Target) : Prop :=
  t.Fits → origin.Own build ∧ ∀ site, ¬ sites site → origin.Intact t site

/-- None of the given sites holds what it held in the beginning. -/
def Changed (origin : Target) (sites : Site → Prop) (t : Target) : Prop :=
  t.Fits → ∀ site, sites site → ¬ origin.Intact t site

variable {origin t t' : Target} {build : Build} {site : Site} {sites : Site → Prop}

/-! ### Later states -/

theorem Step.refl (t : Target) : t.Step t := ⟨rfl, rfl, Nat.le_refl _⟩

theorem Step.trans {t'' : Target} (h : t.Step t') (h' : t'.Step t'') : t.Step t'' :=
  ⟨h'.moduleBase.trans h.moduleBase, h'.mapped.trans h.mapped, Nat.le_trans h.nextBlock h'.nextBlock⟩

theorem SameShape.step (h : t.SameShape t') : t.Step t' :=
  ⟨h.moduleBase, h.mapped, Nat.le_of_eq h.nextBlock.symm⟩

theorem Step.siteAddress (h : t.Step t') (site : Site) : t'.siteAddress site = t.siteAddress site := by
  unfold Target.siteAddress
  rw [h.moduleBase]

theorem Fits.of_step (h' : t'.Fits) (h : t.Step t') : t.Fits := by
  refine ⟨pairwise_disjoint_congr h.mapped.symm h'.apart, ?_, Nat.le_trans h.nextBlock h'.bounded⟩
  intro region hregion a ha
  obtain ⟨region', hregion', hsame⟩ := exists_mem_of_extents h.mapped.symm hregion
  obtain ⟨hbase, hsize⟩ := Prod.mk.inj hsame
  have hclear := h'.clear region' hregion' a (by unfold Region.Has at ha ⊢; omega)
  have := h.nextBlock
  omega

/-- It is enough to look at where the regions begin and end. -/
theorem fits_of_extents (hapart : (t.mapped.map Region.extent).Pairwise fun e f => e.1 + e.2 ≤ f.1 ∨ f.1 + f.2 ≤ e.1)
    (hbelow : ∀ e ∈ t.mapped.map Region.extent, e.1 + e.2 ≤ firstBlock) (hbounded : t.nextBlock ≤ 2 ^ 32) : t.Fits := by
  refine ⟨(List.pairwise_map.1 hapart).imp fun h a ha ha' => ?_, fun region hregion a ha => .inl ?_, hbounded⟩
  · obtain ⟨hfrom, hto⟩ := ha
    obtain ⟨hfrom', hto'⟩ := ha'
    simp only [Region.extent] at h
    omega
  · have := hbelow _ (List.mem_map_of_mem hregion)
    exact Nat.lt_of_lt_of_le ha.2 this

theorem IntactBut.mono {sites' : Site → Prop} (h : origin.IntactBut build sites t)
    (hsites : t.Fits → ∀ site, sites site → sites' site) : origin.IntactBut build sites' t := by
  intro hfits
  refine ⟨(h hfits).1, fun site hsite => (h hfits).2 site fun hs => hsite (hsites hfits site hs)⟩

theorem Sound.start (h : origin.Fresh) : origin.Sound origin where
  fresh := h
  step := .refl origin
  blocks := by rw [h.blocks]; nofun
  owned _ hblocks := absurd h.blocks hblocks
  sites _ _ := .inl rfl

/-! ### Sites lie apart from each other and from blocks -/

theorem siteAddress_apart (t : Target) {site site' : Site} (hne : site ≠ site') :
    (t.siteAddress site).toNat + 6 ≤ (t.siteAddress site').toNat ∨
      (t.siteAddress site').toNat + 6 ≤ (t.siteAddress site).toNat := by
  have := Site.offset_apart hne
  have := site.offset_lt
  have := site'.offset_lt
  have := t.moduleBase.toNat_lt
  simp only [siteAddress, UInt32.toNat_add]
  omega

/-- The sites of a process of a known build lie in its mapped memory. -/
private theorem Sound.exists_mapped (h : origin.Sound t) (hown : origin.Own build) (site : Site) :
    ∃ region ∈ t.mapped, region.covers (t.siteAddress site).toNat 6 = true := by
  have hpeek : peekIn (origin.mapped ++ origin.blocks) (origin.siteAddress site).toNat 6 = _ := hown site
  rw [h.fresh.blocks, List.append_nil, ← h.step.siteAddress] at hpeek
  have hsome : (peekIn t.mapped (t.siteAddress site).toNat 6).isSome = true := by
    rw [isSome_peekIn_congr h.step.mapped, hpeek]
    rfl
  obtain ⟨bytes, hbytes⟩ := Option.isSome_iff_exists.1 hsome
  exact exists_covers_of_peekIn hbytes

private theorem Sound.apart_of_block (h : origin.Sound t) (hown : origin.Own build) (hfits : t.Fits) (site : Site)
    {base size : Nat} (hsize : 0 < size) (hbase : firstBlock ≤ base) (hend : base + size ≤ t.nextBlock) :
    (t.siteAddress site).toNat + 6 ≤ base ∨ base + size ≤ (t.siteAddress site).toNat := by
  obtain ⟨region, hregion, hcovers⟩ := h.exists_mapped hown site
  by_contra hmeet
  -- the first address that the two ranges have in common
  by_cases hle : base ≤ (t.siteAddress site).toNat
  · have := hfits.clear region hregion _ (Region.has_of_covers hcovers (show 0 < 6 by omega))
    omega
  · have := hfits.clear region hregion _
      (Region.has_of_covers hcovers (show base - (t.siteAddress site).toNat < 6 by omega))
    omega

private theorem Sound.range_of_isAllocated (h : origin.Sound t) {base : UInt32}
    (hallocated : t.isAllocated base = true) :
    firstBlock ≤ base.toNat ∧ base.toNat + pageSize ≤ t.nextBlock := by
  obtain ⟨block, hblock, hbase⟩ := List.any_eq_true.1 hallocated
  obtain ⟨hfirst, -, hlast⟩ := h.blocks block hblock
  rw [← beq_iff_eq.1 hbase]
  exact ⟨hfirst, hlast⟩

/-- All that can hold the front of a site holds the whole site. -/
private theorem Sound.covers_site (h : origin.Sound t) (hown : origin.Own build) (hfits : t.Fits) {n : Nat} (hn : 0 < n)
    {region : Region} (hregion : region ∈ t.regions) (hcovers : region.covers (t.siteAddress site).toNat n = true) :
    region.covers (t.siteAddress site).toNat 6 = true := by
  obtain ⟨mapped, hmapped, hsite⟩ := h.exists_mapped hown site
  have hhas : region.Has (t.siteAddress site).toNat := Region.has_of_covers hcovers hn
  have hhas' : mapped.Has (t.siteAddress site).toNat := Region.has_of_covers hsite (show 0 < 6 by omega)
  rcases List.mem_append.1 hregion with hregion | hregion
  · by_cases heq : region = mapped
    · rw [heq]
      exact hsite
    · exact (hfits.apart.forall hregion hmapped heq _ hhas hhas').elim
  · obtain ⟨hfirst, hsize, hlast⟩ := h.blocks region hregion
    have hclear := hfits.clear mapped hmapped _ hhas'
    unfold Region.Has at hhas
    omega

/-! ### Keeping processes sound -/

private theorem Redirected.congr (h : origin.Redirected t site) (hstep : t.Step t')
    (hentry : t'.entry site = t.entry site)
    (hheads : ∀ code : Code, code.size ≤ pageSize → t.HoldsHead code → t'.HoldsHead code) :
    origin.Redirected t' site := by
  obtain ⟨build, hbuild, base, hholds, layout, hlayout, hsite, hbehind, hin, relative, first, sixth, haddress, hbytes,
    hfirst⟩ := h
  have hsize : (Head.placed (build.snapshots t.moduleBase) base).code.size ≤ pageSize := by
    rw [size_placed]
    decide
  refine ⟨build, hbuild, base, ?_, layout, ?_, hsite, ?_⟩
  · rw [hstep.moduleBase]
    exact hheads _ hsize hholds
  · rw [hstep.moduleBase]
    exact hlayout
  · rw [hstep.moduleBase, hstep.siteAddress, hentry]
    exact ⟨hbehind, hin, relative, first, sixth, haddress, hbytes, hfirst⟩

private theorem Sound.blocks_of_shape (h : origin.Sound t) (hshape : t.SameShape t') : ∀ block ∈ t'.blocks,
    firstBlock ≤ block.base ∧ block.size ≤ pageSize ∧ block.base + pageSize ≤ t'.nextBlock := by
  intro block hblock
  obtain ⟨block', hblock', hsame⟩ := exists_mem_of_extents hshape.blocks hblock
  obtain ⟨hbase, hsize⟩ := Prod.mk.inj hsame
  rw [← hbase, ← hsize, hshape.nextBlock]
  exact h.blocks block' hblock'

/-- A process stays sound if its sites stay as they are, or become intact or redirected. -/
theorem Sound.of_shape (h : origin.Sound t) (hshape : t.SameShape t')
    (hheads : t.Fits → ∀ code : Code, code.size ≤ pageSize → t.HoldsHead code → t'.HoldsHead code)
    (hsites : t'.Fits → ∀ site, t'.entry site = t.entry site ∨ origin.Intact t' site ∨ origin.Redirected t' site) :
    origin.Sound t' := by
  refine ⟨h.fresh, h.step.trans hshape.step, h.blocks_of_shape hshape, fun hfits' hblocks => ?_, fun hfits' site => ?_⟩
  · refine h.owned (hfits'.of_step hshape.step) fun hnone => hblocks ?_
    have hextents := hshape.blocks
    rw [hnone] at hextents
    exact List.map_eq_nil_iff.1 hextents
  have hfits := hfits'.of_step hshape.step
  rcases hsites hfits' site with hentry | hchanged
  · rcases h.sites hfits site with hintact | hredirected
    · exact .inl (hentry.trans hintact)
    · exact .inr (hredirected.congr hshape.step hentry (hheads hfits))
  · exact hchanged

theorem IntactBut.of_step {sites' : Site → Prop} (h : origin.IntactBut build sites t) (hstep : t.Step t')
    (hsites : t.Fits → origin.Own build → ∀ site, ¬ sites' site →
      (¬ sites site ∧ t'.entry site = t.entry site) ∨ origin.Intact t' site) :
    origin.IntactBut build sites' t' := by
  intro hfits'
  obtain ⟨hown, hintact⟩ := h (hfits'.of_step hstep)
  refine ⟨hown, fun site hsite => ?_⟩
  rcases hsites (hfits'.of_step hstep) hown site hsite with ⟨hs, hentry⟩ | hintact'
  · exact hentry.trans (hintact site hs)
  · exact hintact'

/-! ### Writing over a site -/

theorem Sound.write_site (h : origin.Sound t) (hown : origin.Own build) (hfits : t.Fits) (site : Site) {bytes : Bytes}
    (hpos : 0 < bytes.length) (hlength : bytes.length ≤ 6) :
    (∀ site', site' ≠ site → (t.write (t.siteAddress site) bytes).2.entry site' = t.entry site') ∧
      (∀ code : Code, code.size ≤ pageSize → t.HoldsHead code →
        (t.write (t.siteAddress site) bytes).2.HoldsHead code) ∧
      (t.write (t.siteAddress site) bytes).2.entry site =
        match (t.write (t.siteAddress site) bytes).1 with
        | .ok _ => (t.entry site).map fun old => bytes ++ old.drop bytes.length
        | .error _ => t.entry site := by
  obtain ⟨hshape, hwrite⟩ := t.write_spec (t.siteAddress site) bytes
  generalize t.write (t.siteAddress site) bytes = result at hshape hwrite
  obtain ⟨outcome, t'⟩ := result
  have haddress : ∀ site, t'.siteAddress site = t.siteAddress site := hshape.step.siteAddress
  have hallocated := hshape.isAllocated
  cases outcome with
  | error failure =>
    have hpeek : ∀ a n, t'.peek? a n = t.peek? a n := peek?_congr hwrite
    unfold HoldsHead entry
    simp only [haddress, hpeek, hallocated]
    exact ⟨fun _ _ => trivial, fun _ _ hholds => hholds, trivial⟩
  | ok _ =>
    refine ⟨fun site' hne => ?_, fun code hsize ⟨hcode, flag, hflag⟩ => ?_, ?_⟩
    · have := t.siteAddress_apart hne
      unfold entry
      rw [haddress]
      exact peekIn_of_pokeIn_apart hwrite (by omega)
    · have hpos : 0 < code.size := by
        rw [← length_of_peek? hflag]
        exact Nat.zero_lt_succ _
      -- sites and blocks lie apart
      obtain ⟨hfirst, hlast⟩ := h.range_of_isAllocated hcode
      have := h.apart_of_block hown hfits site hpos hfirst (by omega)
      refine ⟨(hallocated _).trans hcode, flag, ?_⟩
      rw [← hflag]
      exact peekIn_of_pokeIn_apart hwrite (by omega)
    · unfold entry
      rw [haddress]
      exact peekIn_of_pokeIn_front hwrite hlength fun _ hregion => h.covers_site hown hfits hpos hregion

private theorem Sound.exists_entry (h : origin.Sound t) (hown : origin.Own build) (site : Site) :
    ∃ old, t.entry site = some old ∧ old.length = 6 := by
  obtain ⟨old, hold⟩ := Option.isSome_iff_exists.1 (isSome_peekIn (h.exists_mapped hown site))
  have hentry : t.entry site = some old := peek?_of_mapped hold
  exact ⟨old, hentry, length_of_peek? hentry⟩

private theorem Sound.exists_sixth (h : origin.Sound t) (hown : origin.Own build) (hfits : t.Fits) (site : Site) :
    ∃ (front first : Bytes) (sixth : UInt8), front.length = 5 ∧ t.entry site = some (front ++ [sixth]) ∧
      origin.entry site = some (first ++ [sixth]) := by
  rcases h.sites hfits site with hintact | ⟨_, -, _, -, _, -, -, -, -, relative, first, sixth, -, hbytes, hfirst⟩
  · obtain ⟨old, hold, hlength⟩ := h.exists_entry hown site
    have hne : old ≠ [] := List.ne_nil_of_length_pos (by omega)
    rw [← List.dropLast_append_getLast hne] at hold
    refine ⟨old.dropLast, old.dropLast, old.getLast hne, ?_, hold, hintact.symm.trans hold⟩
    rw [List.length_dropLast, hlength]
  · exact ⟨_, first, sixth, rfl, hbytes, hfirst⟩

/-! ### Accesses that patch and undo -/

/-- As long as a site may lead into a block, no block is released. -/
def Spares (origin t t' : Target) : Prop :=
  t.Fits → (∀ site, origin.Intact t site) ∨ ∀ base, t.isAllocated base = true → t'.isAllocated base = true

/-- An access to a sound process leaves a later state that is sound as well, with `post` if it succeeds and with
`failed` if it does not. -/
structure Keeps {α : Type} (origin t : Target) (result : Except Failure α × Target) (post : α → Target → Prop)
    (failed : Target → Prop) : Prop where
  sound : origin.Sound result.2
  step : t.Step result.2
  spares : origin.Spares t result.2
  outcome : match result.1 with
    | .ok a => post a result.2
    | .error _ => failed result.2

theorem Keeps.and_ok {α : Type} {result : Except Failure α × Target} {post post' : α → Target → Prop}
    {failed : Target → Prop} (h : origin.Keeps t result post failed)
    (h' : ∀ a, result.1 = .ok a → post' a result.2) :
    origin.Keeps t result (fun a t' => post a t' ∧ post' a t') failed := by
  refine ⟨h.sound, h.step, h.spares, ?_⟩
  have hresult := h.outcome
  cases houtcome : result.1 with
  | ok a =>
    rw [houtcome] at hresult
    exact ⟨hresult, h' a houtcome⟩
  | error failure =>
    rw [houtcome] at hresult
    exact hresult

theorem SameShape.spares (h : t.SameShape t') : origin.Spares t t' :=
  fun _ => .inr fun base hbase => (h.isAllocated base).trans hbase

theorem mem_snapshots {moduleBase : UInt32} {snapshot : Snapshot} (h : snapshot ∈ build.snapshots moduleBase) :
    snapshot.code = preamble snapshot.site build moduleBase := by
  obtain ⟨site, -, rfl⟩ := List.mem_map.1 h
  rfl

theorem Sound.snapshot_base (h : origin.Sound t) (hbuild : build ∈ Build.known) {snapshot : Snapshot}
    (hsnapshot : snapshot ∈ build.snapshots origin.moduleBase) : snapshot.code.base = t.siteAddress snapshot.site := by
  rw [mem_snapshots hsnapshot, preamble_base, Build.offset_entry hbuild, h.step.siteAddress]
  rfl

private theorem Sound.write_over (h : origin.Sound t) (hintact : origin.IntactBut build sites t) (site : Site)
    {bytes : Bytes} (hpos : 0 < bytes.length) (hlength : bytes.length ≤ 6)
    (hsite : ∀ t', t.SameShape t' → t.Fits →
      (∀ code : Code, code.size ≤ pageSize → t.HoldsHead code → t'.HoldsHead code) →
      t'.entry site = (t.entry site).map (fun old => bytes ++ old.drop bytes.length) →
      origin.Intact t' site ∨ origin.Redirected t' site) :
    origin.Keeps t (t.write (t.siteAddress site) bytes)
      (fun _ t' => origin.IntactBut build (fun site' => sites site' ∨ site' = site) t' ∧
        (t.Fits → (∀ code : Code, code.size ≤ pageSize → t.HoldsHead code → t'.HoldsHead code) ∧
          t'.entry site = (t.entry site).map fun old => bytes ++ old.drop bytes.length))
      (origin.IntactBut build sites) := by
  have hwrite := fun hfits : t.Fits => h.write_site (hintact hfits).1 hfits site hpos hlength
  obtain ⟨hshape, -⟩ := t.write_spec (t.siteAddress site) bytes
  generalize t.write (t.siteAddress site) bytes = result at hwrite hshape
  obtain ⟨outcome, t'⟩ := result
  refine ⟨h.of_shape hshape (fun hfits => (hwrite hfits).2.1) fun hfits' site' => ?_, hshape.step, hshape.spares, ?_⟩
  · have hfits := hfits'.of_step hshape.step
    -- only the site that is written to can change
    obtain ⟨hothers, hheads, hentry⟩ := hwrite hfits
    by_cases hne : site' = site
    · subst hne
      cases outcome with
      | ok _ => exact .inr (hsite t' hshape hfits hheads hentry)
      | error _ => exact .inl hentry
    · exact .inl (hothers site' hne)
  · cases outcome with
    | ok _ =>
      refine ⟨hintact.of_step hshape.step fun hfits _ site' hs => .inl ⟨fun h => hs (.inl h), ?_⟩,
        fun hfits => (hwrite hfits).2⟩
      exact (hwrite hfits).1 site' fun h => hs (.inr h)
    | error _ =>
      refine hintact.of_step hshape.step fun hfits _ site' hs => .inl ⟨hs, ?_⟩
      by_cases hne : site' = site
      · subst hne
        exact (hwrite hfits).2.2
      · exact (hwrite hfits).1 site' hne

theorem Sound.put_back (h : origin.Sound t) (hbuild : build ∈ Build.known) {snapshot : Snapshot}
    (hsnapshot : snapshot ∈ build.snapshots origin.moduleBase) (hintact : origin.IntactBut build sites t) :
    origin.Keeps t (t.write snapshot.code.base snapshot.code.bytes)
      (fun _ => origin.IntactBut build fun site => sites site ∧ site ≠ snapshot.site)
      (origin.IntactBut build sites) := by
  have hlength := Build.length_snapshots hsnapshot
  -- all six bytes are written
  have hback : ∀ t' : Target, t.Fits → t'.entry snapshot.site = (t.entry snapshot.site).map
      (fun old => snapshot.code.bytes ++ old.drop snapshot.code.bytes.length) → origin.Intact t' snapshot.site := by
    intro t' hfits hentry
    obtain ⟨hown, -⟩ := hintact hfits
    obtain ⟨old, hold, hsix⟩ := h.exists_entry hown snapshot.site
    rw [hold, Option.map_some, hlength, List.drop_of_length_le (Nat.le_of_eq hsix), List.append_nil,
      mem_snapshots hsnapshot] at hentry
    exact hentry.trans (hown snapshot.site).symm
  have hwrite := h.write_over hintact snapshot.site (Nat.lt_of_lt_of_eq (Nat.zero_lt_succ 5) hlength.symm)
    (Nat.le_of_eq hlength) fun t' _ hfits _ hentry => .inl (hback t' hfits hentry)
  rw [h.snapshot_base hbuild hsnapshot]
  refine ⟨hwrite.sound, hwrite.step, hwrite.spares, ?_⟩
  have hresult := hwrite.outcome
  generalize t.write (t.siteAddress snapshot.site) snapshot.code.bytes = result at hwrite hresult
  obtain ⟨outcome, t'⟩ := result
  cases outcome with
  | error _ => exact hresult
  | ok _ =>
    obtain ⟨hbut, hchanged⟩ := hresult
    intro hfits'
    refine ⟨(hbut hfits').1, fun site hs => ?_⟩
    by_cases hne : site = snapshot.site
    · have hfits := hfits'.of_step hwrite.step
      rw [hne]
      exact hback t' hfits (hchanged hfits).2
    · exact (hbut hfits').2 site fun hor => hor.elim (fun h => hs ⟨h, hne⟩) hne

theorem Sound.redirect (h : origin.Sound t) (hbuild : build ∈ Build.known) {base : UInt32}
    {pair : SiteLayout × Snapshot} (hpair : pair ∈
      (Head.build (build.snapshots origin.moduleBase)).sites.zip (build.snapshots origin.moduleBase))
    (hintact : origin.IntactBut build sites t)
    (hhead : t.Fits → t.HoldsHead (Head.placed (build.snapshots origin.moduleBase) base).code) :
    origin.Keeps t (t.write pair.2.code.base (LoadRemover.redirect pair.2.code.base
        ((Head.placed (build.snapshots origin.moduleBase) base).wrapperAddress pair.1)).bytes)
      (fun _ t' => origin.IntactBut build (fun site => sites site ∨ site = pair.2.site) t' ∧
        (t'.Fits → t'.HoldsHead (Head.placed (build.snapshots origin.moduleBase) base).code))
      (origin.IntactBut build sites) := by
  have hlays := (sites_zip build origin.moduleBase base).2 pair hpair
  obtain ⟨hlayout, hsnapshot⟩ := List.of_mem_zip hpair
  have hsize : (Head.placed (build.snapshots origin.moduleBase) base).code.size ≤ pageSize := by
    rw [size_placed]
    decide
  rw [h.snapshot_base hbuild hsnapshot, bytes_redirect]
  generalize hrelative : (Head.placed (build.snapshots origin.moduleBase) base).wrapperAddress pair.1 -
    (t.siteAddress pair.2.site + 5) = relative
  have haddress : t.siteAddress pair.2.site + 5 + relative =
      (Head.placed (build.snapshots origin.moduleBase) base).wrapperAddress pair.1 := by
    rw [← hrelative]
    grind
  have hlength : (0xE9 :: Bytes.littleEndian32 relative).length = 5 := rfl
  have hwrite := h.write_over hintact pair.2.site (Nat.lt_of_lt_of_eq (Nat.zero_lt_succ 4) hlength.symm)
    (Nat.le_trans (Nat.le_of_eq hlength) (Nat.le_succ 5)) ?_
  · refine ⟨hwrite.sound, hwrite.step, hwrite.spares, ?_⟩
    have hresult := hwrite.outcome
    generalize t.write (t.siteAddress pair.2.site) (0xE9 :: Bytes.littleEndian32 relative) = result at hwrite hresult
    obtain ⟨outcome, t'⟩ := result
    cases outcome with
    | error _ => exact hresult
    | ok _ =>
      refine ⟨hresult.1, fun hfits' => ?_⟩
      have hfits := hfits'.of_step hwrite.step
      exact (hresult.2 hfits).1 _ hsize (hhead hfits)
  · intro t' hshape hfits hheads hentry
    -- the jump takes five bytes, and the sixth is that of the beginning
    obtain ⟨front, first, sixth, hlength, hnow, hbegin⟩ := h.exists_sixth (hintact hfits).1 hfits pair.2.site
    have hbase : t'.moduleBase = origin.moduleBase := hshape.moduleBase.trans h.step.moduleBase
    have hdrop : (front ++ [sixth]).drop (0xE9 :: Bytes.littleEndian32 relative).length = [sixth] :=
      List.drop_left' hlength
    refine .inr ⟨build, hbuild, base, ?_, pair.1, ?_, hlays.site, ?_⟩
    · rw [hbase]
      exact hheads _ hsize (hhead hfits)
    · rw [hbase]
      exact hlayout
    · rw [hbase, hshape.step.siteAddress]
      refine ⟨hlays.wrapper_lt.1, hlays.wrapper_lt.2, relative, first, sixth, haddress, ?_, hbegin⟩
      rw [hentry, hnow, Option.map_some, hdrop]

/-- No preamble begins with a jump. -/
private theorem Own.not_intact (h : origin.Own build) {bytes : Bytes} (hentry : t.entry site = some (0xE9 :: bytes)) :
    ¬ origin.Intact t site := by
  intro hintact
  have hsame := Option.some.inj ((h site).symm.trans (hintact.symm.trans hentry))
  exact absurd (congrArg List.head? hsame) (head?_preamble site build origin.moduleBase)

theorem Sound.redirect_changes (h : origin.Sound t) (hbuild : build ∈ Build.known) {snapshot : Snapshot}
    (hsnapshot : snapshot ∈ build.snapshots origin.moduleBase) (wrapper : UInt32)
    (hintact : origin.IntactBut build sites t) (hchanged : origin.Changed sites t)
    (hok : (t.write snapshot.code.base (LoadRemover.redirect snapshot.code.base wrapper).bytes).1 = .ok ()) :
    origin.Changed (fun site => sites site ∨ site = snapshot.site)
      (t.write snapshot.code.base (LoadRemover.redirect snapshot.code.base wrapper).bytes).2 := by
  rw [h.snapshot_base hbuild hsnapshot, bytes_redirect] at hok ⊢
  generalize wrapper - (t.siteAddress snapshot.site + 5) = relative at hok ⊢
  have hlength : (0xE9 :: Bytes.littleEndian32 relative).length = 5 := rfl
  obtain ⟨hshape, -⟩ := t.write_spec (t.siteAddress snapshot.site) (0xE9 :: Bytes.littleEndian32 relative)
  have hwrite := fun hown (hfits : t.Fits) => @Sound.write_site origin t build h hown hfits snapshot.site
    (0xE9 :: Bytes.littleEndian32 relative) (Nat.lt_of_lt_of_eq (Nat.zero_lt_succ 4) hlength.symm)
    (Nat.le_trans (Nat.le_of_eq hlength) (Nat.le_succ 5))
  intro hfits' site hsite
  have hfits := hfits'.of_step hshape.step
  obtain ⟨hown, -⟩ := hintact hfits
  obtain ⟨hothers, -, hentry⟩ := hwrite hown hfits
  by_cases hne : site = snapshot.site
  · obtain ⟨old, hold, -⟩ := h.exists_entry hown snapshot.site
    simp only [hok, hold, Option.map_some, List.cons_append] at hentry
    rw [hne]
    exact hown.not_intact hentry
  · unfold Intact
    rw [hothers site hne]
    exact hchanged hfits site (hsite.resolve_right hne)

/-! ### Accesses to blocks -/

section Blocks

variable (hintact : origin.IntactBut build (fun _ => False) t)
include hintact

private theorem Sound.of_intact (h : origin.Sound t) (hstep : t.Step t') (hblocks : ∀ block ∈ t'.blocks,
      firstBlock ≤ block.base ∧ block.size ≤ pageSize ∧ block.base + pageSize ≤ t'.nextBlock)
    (hentry : t.Fits → ∀ site, t'.entry site = t.entry site) :
    origin.Sound t' ∧ origin.IntactBut build (fun _ => False) t' := by
  have hintact' : origin.IntactBut build (fun _ => False) t' :=
    hintact.of_step hstep fun hfits _ site hs => .inl ⟨hs, hentry hfits site⟩
  refine ⟨⟨h.fresh, h.step.trans hstep, hblocks, fun hfits _ => ?_, fun hfits site => ?_⟩, hintact'⟩
  · exact ⟨build, (hintact' hfits).1⟩
  · exact .inl ((hintact' hfits).2 site id)

theorem Sound.allocate (h : origin.Sound t) {size : Nat} (hsize : size ≤ pageSize) :
    origin.Keeps t (t.allocate size)
      (fun base t' => origin.IntactBut build (fun _ => False) t' ∧ (t'.Fits → t'.isAllocated base = true))
      (origin.IntactBut build fun _ => False) := by
  unfold Target.allocate
  by_cases hexited : t.exited = true
  · rw [if_pos hexited]
    exact ⟨h, .refl t, (SameShape.refl t).spares, hintact⟩
  rw [if_neg hexited]
  generalize hnext : t.nextBlock + max 1 ((size % 0x100000000 + pageSize - 1) / pageSize) * pageSize = next
  have hpage : t.nextBlock + pageSize ≤ next := by
    unfold pageSize at hnext ⊢
    omega
  have hfirst : firstBlock ≤ t.nextBlock := by
    rw [← h.fresh.nextBlock]
    exact h.step.nextBlock
  let t' : Target := { t with blocks := t.blocks ++ [.zeros t.nextBlock size], nextBlock := next }
  have hstep : t.Step t' := ⟨rfl, rfl, Nat.le_trans (Nat.le_add_right _ _) hpage⟩
  have hblocks : ∀ block ∈ t'.blocks,
      firstBlock ≤ block.base ∧ block.size ≤ pageSize ∧ block.base + pageSize ≤ t'.nextBlock := by
    intro block hblock
    rcases List.mem_append.1 hblock with hold | hnew
    · obtain ⟨hbase, hwide, hlast⟩ := h.blocks block hold
      exact ⟨hbase, hwide, Nat.le_trans hlast hstep.nextBlock⟩
    · obtain rfl := List.mem_singleton.1 hnew
      exact ⟨hfirst, hsize, hpage⟩
  have hentry : t.Fits → ∀ site, t'.entry site = t.entry site := by
    intro hfits site
    -- the new block is the last region that is looked at
    obtain ⟨old, hold, -⟩ := h.exists_entry (hintact hfits).1 site
    have hmore : t'.entry site = (t.entry site).or (peekIn [.zeros t.nextBlock size] (t.siteAddress site).toNat 6) := by
      rw [entry, entry, peek?, peek?, ← peekIn, ← peekIn, ← peekIn_append, regions, regions, List.append_assoc]
      rfl
    rw [hmore, hold, Option.some_or]
  obtain ⟨hsound, hintact'⟩ := h.of_intact hintact hstep hblocks hentry
  have hspares : origin.Spares t t' := by
    refine fun _ => .inr fun base hbase => ?_
    obtain ⟨block, hblock, hsame⟩ := List.any_eq_true.1 hbase
    exact List.any_eq_true.2 ⟨block, List.mem_append_left _ hblock, hsame⟩
  refine ⟨hsound, hstep, hspares, hintact', fun hfits' => ?_⟩
  -- the address is handed out as a word, so it must not overflow
  have hlt : t.nextBlock < 2 ^ 32 := by
    have : next ≤ 2 ^ 32 := hfits'.bounded
    unfold pageSize at hpage
    omega
  have hbase : (UInt32.ofNat t.nextBlock).toNat = t.nextBlock := UInt32.toNat_ofNat_of_lt' hlt
  refine List.any_eq_true.2 ⟨.zeros t.nextBlock size, List.mem_append_right _ (List.mem_singleton_self _), ?_⟩
  rw [hbase]
  exact beq_self_eq_true _

theorem Sound.fill (h : origin.Sound t) {code : Code} (hpos : 0 < code.size) (hsize : code.size ≤ pageSize)
    (hbase : t.Fits → t.isAllocated code.base = true) :
    origin.Keeps t (t.write code.base code.bytes)
      (fun _ t' => origin.IntactBut build (fun _ => False) t' ∧ (t'.Fits → t'.HoldsHead code))
      (origin.IntactBut build fun _ => False) := by
  obtain ⟨hshape, hwrite⟩ := t.write_spec code.base code.bytes
  generalize t.write code.base code.bytes = result at hshape hwrite
  obtain ⟨outcome, t'⟩ := result
  have hentry : t.Fits → ∀ site, t'.entry site = t.entry site := by
    intro hfits site
    unfold entry
    rw [hshape.step.siteAddress]
    cases outcome with
    | error _ => exact peek?_congr hwrite _ _
    | ok _ =>
      obtain ⟨hfirst, hlast⟩ := h.range_of_isAllocated (hbase hfits)
      have := h.apart_of_block (hintact hfits).1 hfits site hpos hfirst (by omega)
      exact peekIn_of_pokeIn_apart hwrite this.symm
  obtain ⟨hsound, hintact'⟩ := h.of_intact hintact hshape.step (h.blocks_of_shape hshape) hentry
  refine ⟨hsound, hshape.step, hshape.spares, ?_⟩
  cases outcome with
  | error _ => exact hintact'
  | ok _ =>
    refine ⟨hintact', fun hfits' => ⟨?_, code.bytes.head (List.ne_nil_of_length_pos hpos), ?_⟩⟩
    · rw [hshape.isAllocated]
      exact hbase (hfits'.of_step hshape.step)
    · rw [List.cons_head_tail]
      exact peekIn_of_pokeIn hwrite

/-- A block may go when no site leads into any. -/
theorem Sound.free (h : origin.Sound t) (base : UInt32) :
    origin.Keeps t (t.free base) (fun _ => origin.IntactBut build fun _ => False)
      (origin.IntactBut build fun _ => False) := by
  unfold Target.free
  split
  · let t' : Target := { t with blocks := t.blocks.eraseP (·.base == base.toNat) }
    have hstep : t.Step t' := ⟨rfl, rfl, Nat.le_refl _⟩
    have hentry : t.Fits → ∀ site, t'.entry site = t.entry site := by
      intro hfits site
      obtain ⟨bytes, hbytes⟩ := Option.isSome_iff_exists.1 (isSome_peekIn (h.exists_mapped (hintact hfits).1 site))
      have hold : t.entry site = some bytes := peek?_of_mapped hbytes
      have hnew : t'.entry site = some bytes := peek?_of_mapped (t := t') hbytes
      rw [hold, hnew]
    obtain ⟨hsound, hintact'⟩ := h.of_intact hintact hstep
      (fun block hblock => h.blocks block (List.mem_of_mem_eraseP hblock)) hentry
    exact ⟨hsound, hstep, fun hfits => .inl fun site => (hintact hfits).2 site id, hintact'⟩
  · exact ⟨h, .refl t, (SameShape.refl t).spares, hintact⟩

end Blocks

/-! ### What else happens to a process -/

def InSite (t : Target) (a : Nat) : Prop :=
  ∃ site, (t.siteAddress site).toNat ≤ a ∧ a < (t.siteAddress site).toNat + 6

/-- What happens to a process without an engine. Of its memory all may change but its sites and the blocks behind
their first byte. It may end, and accesses to it may be refused from now on. -/
structure Drifts (t t' : Target) : Prop where
  moduleBase : t'.moduleBase = t.moduleBase
  nextBlock : t'.nextBlock = t.nextBlock
  mapped : List.Forall₂ (Region.SameAt t.InSite) t.mapped t'.mapped
  blocks : List.Forall₂ (fun block => block.SameAt (· ≠ block.base)) t.blocks t'.blocks

theorem Drifts.refl (t : Target) : t.Drifts t :=
  ⟨rfl, rfl, List.forall₂_same.2 fun _ _ => ⟨rfl, fun _ _ => rfl⟩, List.forall₂_same.2 fun _ _ => ⟨rfl, fun _ _ => rfl⟩⟩

theorem map_extent_of_forall₂ {keep : Region → Nat → Prop} {rs rs' : List Region}
    (h : List.Forall₂ (fun r => r.SameAt (keep r)) rs rs') : rs'.map Region.extent = rs.map Region.extent := by
  induction h with
  | nil => rfl
  | cons hr _ ih => rw [List.map_cons, List.map_cons, hr.extent, ih]

theorem Drifts.shape (h : t.Drifts t') : t.SameShape t' :=
  ⟨h.moduleBase, map_extent_of_forall₂ h.mapped, map_extent_of_forall₂ h.blocks, h.nextBlock⟩

/-- The sites stay as they are, also where they are not mapped: then there are no blocks either. -/
theorem Sound.entry_of_drift (h : origin.Sound t) (hdrift : t.Drifts t') (hfits : t.Fits) (site : Site) :
    t'.entry site = t.entry site := by
  have hmapped : peekIn t'.mapped (t.siteAddress site).toNat 6 = peekIn t.mapped (t.siteAddress site).toNat 6 :=
    peekIn_of_sameAt hdrift.mapped fun i hi => ⟨site, by omega, by omega⟩
  have hall : ∀ t : Target, ∀ a, t.peek? a 6 = (peekIn t.mapped a.toNat 6).or (peekIn t.blocks a.toNat 6) :=
    fun t a => peekIn_append t.mapped t.blocks a.toNat 6
  unfold entry
  rw [hdrift.shape.step.siteAddress, hall, hall, hmapped]
  by_cases hnone : t.blocks = []
  · have hblocks := hdrift.blocks
    rw [hnone, List.forall₂_nil_left_iff] at hblocks
    rw [hnone, hblocks]
  · obtain ⟨build, hown⟩ := h.owned hfits hnone
    obtain ⟨bytes, hbytes⟩ := Option.isSome_iff_exists.1 (isSome_peekIn (h.exists_mapped hown site))
    rw [hbytes, Option.some_or, Option.some_or]

private theorem Sound.holdsHead_of_drift (h : origin.Sound t) (hdrift : t.Drifts t') (hfits : t.Fits) {code : Code}
    (hholds : t.HoldsHead code) : t'.HoldsHead code := by
  obtain ⟨hallocated, flag, hflag⟩ := hholds
  have hpos : 0 < code.size := by
    rw [← length_of_peek? hflag]
    exact Nat.zero_lt_succ _
  -- the block is not mapped, so it is read as a block
  have hunmapped : peekIn t.mapped code.base.toNat code.size = none := by
    by_contra hsome
    obtain ⟨bytes, hbytes⟩ := Option.ne_none_iff_exists'.1 hsome
    obtain ⟨region, hregion, hcovers⟩ := exists_covers_of_peekIn hbytes
    have hclear := hfits.clear region hregion _ (Region.has_of_covers hcovers hpos)
    obtain ⟨hfirst, hlast⟩ := h.range_of_isAllocated hallocated
    unfold pageSize at hlast
    omega
  have hunmapped' : peekIn t'.mapped code.base.toNat code.size = none := by
    have hsame := isSome_peekIn_congr (a := code.base.toNat) (n := code.size) hdrift.shape.mapped
    rw [hunmapped] at hsame
    exact Option.isSome_eq_false_iff.1 hsame |> Option.isNone_iff_eq_none.1
  have hblock : peekIn (t.mapped ++ t.blocks) code.base.toNat code.size = some (flag :: code.bytes.tail) := hflag
  rw [peekIn_append, hunmapped, Option.none_or] at hblock
  have htail := tail_peekIn_of_sameAt hdrift.blocks code.base.toNat code.size
  rw [hblock, Option.map_some] at htail
  -- of the block only the flag may differ
  obtain ⟨bytes, hbytes, hsame⟩ := Option.map_eq_some_iff.1 htail
  have hlength := length_of_peekIn hbytes
  refine ⟨(hdrift.shape.isAllocated _).trans hallocated, ?_⟩
  cases bytes with
  | nil => exact absurd hlength.symm (Nat.ne_of_gt hpos)
  | cons flag' rest =>
    obtain rfl : rest = code.bytes.tail := hsame
    refine ⟨flag', ?_⟩
    have hall : t'.peek? code.base code.size = peekIn (t'.mapped ++ t'.blocks) code.base.toNat code.size := rfl
    rw [hall, peekIn_append, hunmapped', Option.none_or, hbytes]

theorem Sound.drift (h : origin.Sound t) (hdrift : t.Drifts t') : origin.Sound t' :=
  h.of_shape hdrift.shape (fun hfits _ _ hholds => h.holdsHead_of_drift hdrift hfits hholds)
    fun hfits' site => .inl (h.entry_of_drift hdrift (hfits'.of_step hdrift.shape.step) site)

end Target

end LoadRemover.InMemory
