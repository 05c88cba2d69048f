import Mathlib.Data.List.Nodup
import LoadRemover.Proofs.Visits

/-!
# Keeping account of blocks

A `Tally` counts in the accesses of a call what matters for the blocks that it leaves: the block that was allocated,
the sites where a jump or the site's own code was refused, and the blocks that could not be released. Next to it
stands the `Target.Ledger` of a process, which says exactly which sites are changed and which blocks are allocated.
Each access takes one ledger to another; this module has a lemma for each. What is left of a ledger between two calls,
when other things happen to the process, is the `Target.Owing`.
-/

namespace LoadRemover

/-! ### Counting accesses -/

/-- What there is to be told from the accesses of a call. -/
structure Tally where
  /-- The block that was allocated. -/
  block? : Option UInt32 := none
  /-- The sites that could not be redirected. -/
  jumps : List UInt32 := []
  /-- The sites that could not be put back. -/
  codes : List UInt32 := []
  /-- The blocks that could not be released. -/
  unfreed : List UInt32 := []

namespace Tally

/-- A write of `n` bytes was refused. A jump takes five bytes, and six are what a site has of its own. -/
def refuse (tally : Tally) (address : UInt32) (n : Nat) : Tally :=
  if n = 5 then { tally with jumps := tally.jumps ++ [address] }
  else if n = 6 then { tally with codes := tally.codes ++ [address] }
  else tally

def add (tally : Tally) : Access → Tally
  | .allocate _ (.ok base) => { tally with block? := some base }
  | .write address bytes (.error _) => tally.refuse address bytes.length
  | .free address (.error _) => { tally with unfreed := tally.unfreed ++ [address] }
  | _ => tally

def of (accesses : List Access) : Tally := accesses.foldl add {}

/-- The block that stays although no site leads there: some site could not be redirected, and then it could not be put
back either. -/
def stranded? (tally : Tally) : Option UInt32 :=
  if tally.jumps.any (tally.codes.contains ·) then tally.block? else none

/-- The blocks that stay for good. -/
def left (tally : Tally) : List UInt32 := tally.stranded?.toList ++ tally.unfreed

section Stranded

variable {tally : Tally} {address : UInt32}

theorem stranded?_of_mem (hjump : address ∈ tally.jumps) (hcode : address ∈ tally.codes) :
    tally.stranded? = tally.block? :=
  if_pos (List.any_eq_true.2 ⟨address, hjump, List.contains_iff_mem.2 hcode⟩)

theorem stranded?_eq_none (h : ∀ address ∈ tally.jumps, address ∉ tally.codes) : tally.stranded? = none := by
  refine if_neg fun hany => ?_
  obtain ⟨address, hjump, hcode⟩ := List.any_eq_true.1 hany
  exact h address hjump (List.contains_iff_mem.1 hcode)

end Stranded

theorem of_concat (accesses : List Access) (access : Access) : of (accesses ++ [access]) = (of accesses).add access :=
  List.foldl_concat ..

theorem mem_unfreed_of {accesses : List Access} {address : UInt32} :
    address ∈ (of accesses).unfreed ↔ ∃ failure, .free address (.error failure) ∈ accesses := by
  induction accesses using List.reverseRecOn with
  | nil => simp [of]
  | append_singleton accesses access ih =>
    have hadd : address ∈ ((of accesses).add access).unfreed ↔
        address ∈ (of accesses).unfreed ∨ ∃ failure, access = .free address (.error failure) := by
      unfold add
      split
      · simp
      · unfold refuse
        split
        · simp
        · split <;> simp
      · simp [eq_comm]
      · rename_i hnot
        exact ⟨.inl, fun h => h.resolve_right fun ⟨failure, heq⟩ => hnot address failure heq⟩
    rw [of_concat, hadd, ih]
    simp only [List.mem_append, List.mem_singleton, eq_comm, exists_or]

/-- As long as all accesses succeed, there is nothing to tell but where the block is. -/
private theorem of_succeeds {accesses : List Access} (h : ∀ access ∈ accesses, access.succeeds = true) :
    ∃ block?, of accesses = { block? } := by
  induction accesses using List.reverseRecOn with
  | nil => exact ⟨none, rfl⟩
  | append_singleton accesses access ih =>
    obtain ⟨block?, hof⟩ := ih fun access' h' => h access' (List.mem_append_left _ h')
    have hlast := h access (List.mem_append_right _ (List.mem_singleton_self _))
    rw [of_concat, hof]
    unfold add
    split
    · exact ⟨_, rfl⟩
    · cases hlast
    · cases hlast
    · exact ⟨_, rfl⟩

theorem exists_fails {accesses : List Access} (h : (of accesses).codes ≠ [] ∨ (of accesses).unfreed ≠ []) :
    ∃ access ∈ accesses, access.succeeds = false := by
  by_contra hnone
  obtain ⟨block?, hof⟩ := of_succeeds fun access haccess =>
    Bool.eq_true_of_not_eq_false fun hfails => hnone ⟨access, haccess, hfails⟩
  rw [hof] at h
  exact h.elim (· rfl) (· rfl)

end Tally

/-- A build has one snapshot for each site. -/
theorem Build.eq_of_site {build : Build} {moduleBase : UInt32} {s s' : Snapshot} (hs : s ∈ build.snapshots moduleBase)
    (hs' : s' ∈ build.snapshots moduleBase) (hsame : s.site = s'.site) : s = s' := by
  obtain ⟨site, -, rfl⟩ := List.mem_map.1 hs
  obtain ⟨site', -, rfl⟩ := List.mem_map.1 hs'
  obtain rfl : site = site' := hsame
  rfl

theorem Build.nodup_snapshots (build : Build) (moduleBase : UInt32) : (build.snapshots moduleBase).Nodup := by
  have hsites : Site.all.Nodup := by decide
  exact List.Nodup.of_map (fun s : Snapshot => s.site) hsites

namespace InMemory

namespace Target

/-! ### Ledgers -/

theorem isAllocated_iff {t : Target} {bases : List UInt32} (h : t.blocks.map (·.base) = bases.map (·.toNat))
    {base : UInt32} : t.isAllocated base = true ↔ base ∈ bases := by
  have hmem : t.isAllocated base = true ↔ base.toNat ∈ t.blocks.map (·.base) := by
    simp [isAllocated]
  rw [hmem, h]
  constructor
  · intro hbase
    obtain ⟨other, hother, hsame⟩ := List.mem_map.1 hbase
    rwa [← UInt32.toNat_inj.1 hsame]
  · exact fun hbase => List.mem_map_of_mem hbase

/-- The process is of the build. The given sites are changed and no others are, and the blocks are at the given
addresses. -/
structure Ledger (origin : Target) (build : Build) (changed : Site → Prop) (bases : List UInt32) (t : Target) :
    Prop where
  sound : origin.Sound t
  intact : origin.IntactBut build changed t
  changed : origin.Changed changed t
  blocks : t.Fits → t.blocks.map (·.base) = bases.map (·.toNat)
  nodup : t.Fits → bases.Nodup

variable {origin t t' : Target} {build : Build} {changed : Site → Prop} {bases : List UInt32} {base : UInt32}

/-- The memory is the same, and so is where the next block goes. -/
structure Unmoved (t t' : Target) : Prop where
  shape : t.SameShape t'
  regions : t'.regions = t.regions

theorem Unmoved.refl (t : Target) : t.Unmoved t := ⟨.refl t, rfl⟩

private theorem Unmoved.entry (h : t.Unmoved t') (site : Site) : t'.entry site = t.entry site := by
  unfold Target.entry
  rw [h.shape.step.siteAddress]
  exact peek?_congr h.regions _ _

private theorem Unmoved.holdsHead (h : t.Unmoved t') {code : Code} (hholds : t.HoldsHead code) : t'.HoldsHead code := by
  obtain ⟨hallocated, flag, hflag⟩ := hholds
  exact ⟨(h.shape.isAllocated _).trans hallocated, flag, (peek?_congr h.regions _ _).trans hflag⟩

namespace Ledger

theorem congr {changed' : Site → Prop} (h : origin.Ledger build changed bases t)
    (hsites : ∀ site, changed site ↔ changed' site) : origin.Ledger build changed' bases t := by
  obtain rfl : changed = changed' := funext fun site => propext (hsites site)
  exact h

theorem of_unmoved (h : origin.Ledger build changed bases t) (hsame : t.Unmoved t') :
    origin.Ledger build changed bases t' := by
  have hback : t'.Fits → t.Fits := fun hfits' => hfits'.of_step hsame.shape.step
  refine ⟨h.sound.of_shape hsame.shape (fun _ _ _ => hsame.holdsHead) fun _ site => .inl (hsame.entry site),
    h.intact.of_step hsame.shape.step fun _ _ site hs => .inl ⟨hs, hsame.entry site⟩, fun hfits' site hsite => ?_,
    fun hfits' => hsame.shape.bases.trans (h.blocks (hback hfits')), fun hfits' => h.nodup (hback hfits')⟩
  unfold Intact
  rw [hsame.entry]
  exact h.changed (hback hfits') site hsite

/-! ### Writing to sites -/

section Sites

variable {snapshot : Snapshot} {bytes : Bytes}

/-- A write to a site leaves the others as they are. -/
private theorem entry_of_write (h : origin.Ledger build changed bases t) (hbuild : build ∈ Build.known)
    (hsnapshot : snapshot ∈ build.snapshots origin.moduleBase) (hpos : 0 < bytes.length) (hlength : bytes.length ≤ 6)
    (hfits : t.Fits) {site : Site} (hne : site ≠ snapshot.site) :
    (t.write snapshot.code.base bytes).2.entry site = t.entry site := by
  rw [h.sound.snapshot_base hbuild hsnapshot]
  exact (h.sound.write_site (h.intact hfits).1 hfits snapshot.site hpos hlength).1 site hne

/-- Addresses of blocks stay through a write. -/
private theorem bases_of_write (h : origin.Ledger build changed bases t) (address : UInt32) (bytes : Bytes)
    (hfits' : (t.write address bytes).2.Fits) :
    (t.write address bytes).2.blocks.map (·.base) = bases.map (·.toNat) ∧ bases.Nodup := by
  have hshape := (t.write_spec address bytes).1
  have hfits := hfits'.of_step hshape.step
  exact ⟨hshape.bases.trans (h.blocks hfits), h.nodup hfits⟩

theorem put_back (h : origin.Ledger build changed bases t) (hbuild : build ∈ Build.known)
    (hsnapshot : snapshot ∈ build.snapshots origin.moduleBase)
    (hok : (t.write snapshot.code.base snapshot.code.bytes).1 = .ok ()) :
    origin.Ledger build (fun site => changed site ∧ site ≠ snapshot.site) bases
      (t.write snapshot.code.base snapshot.code.bytes).2 := by
  have hlength := Build.length_snapshots hsnapshot
  have hkeeps := h.sound.put_back hbuild hsnapshot h.intact
  have hresult := hkeeps.outcome
  rw [hok] at hresult
  refine ⟨hkeeps.sound, hresult, ?_, fun hfits' => (h.bases_of_write _ _ hfits').1,
    fun hfits' => (h.bases_of_write _ _ hfits').2⟩
  rintro hfits' site ⟨hsite, hne⟩
  have hfits := hfits'.of_step hkeeps.step
  unfold Intact
  rw [h.entry_of_write hbuild hsnapshot (by omega) (by omega) hfits hne]
  exact h.changed hfits site hsite

end Sites

/-! ### Blocks that come and go -/

section Blocks

private theorem none_changed (origin t : Target) : origin.Changed (fun _ => False) t := fun _ _ h => h.elim

theorem allocate (h : origin.Ledger build (fun _ => False) bases t) {size : Nat} (hsize : size ≤ pageSize)
    (hok : (t.allocate size).1 = .ok base) :
    origin.Ledger build (fun _ => False) (bases ++ [base]) (t.allocate size).2 := by
  have hkeeps := h.sound.allocate h.intact hsize
  have hresult := hkeeps.outcome
  rw [hok] at hresult
  -- the block is the last one, and it lies behind all others
  have hblocks : base = UInt32.ofNat t.nextBlock ∧
      (t.allocate size).2.blocks = t.blocks ++ [.zeros t.nextBlock size] ∧
      t.nextBlock + pageSize ≤ (t.allocate size).2.nextBlock := by
    unfold Target.allocate at hok ⊢
    split at hok
    · cases hok
    · rename_i hexited
      rw [if_neg hexited]
      refine ⟨(Except.ok.inj hok).symm, rfl, ?_⟩
      simp only [pageSize]
      omega
  obtain ⟨rfl, hblocks, hnext⟩ := hblocks
  have hplace : (t.allocate size).2.Fits → (UInt32.ofNat t.nextBlock).toNat = t.nextBlock := by
    intro hfits'
    have := hfits'.bounded
    refine UInt32.toNat_ofNat_of_lt' (Nat.lt_of_lt_of_le ?_ (Nat.le_trans hnext this))
    exact Nat.lt_add_of_pos_right (by decide)
  refine ⟨hkeeps.sound, hresult.1, none_changed _ _, fun hfits' => ?_, fun hfits' => ?_⟩
  · rw [hblocks, List.map_append, List.map_append, h.blocks (hfits'.of_step hkeeps.step), List.map_singleton,
      List.map_singleton, hplace hfits']
    rfl
  · have hfits := hfits'.of_step hkeeps.step
    refine List.nodup_append.2 ⟨h.nodup hfits, List.nodup_singleton _, ?_⟩
    rintro other hother new hnew rfl
    have hmem : other.toNat ∈ t.blocks.map (·.base) := by
      rw [h.blocks hfits]
      exact List.mem_map_of_mem hother
    obtain ⟨block, hblock, hsame⟩ := List.mem_map.1 hmem
    obtain ⟨-, -, hlast⟩ := h.sound.blocks block hblock
    rw [List.mem_singleton.1 hnew, hplace hfits'] at hsame
    unfold pageSize at hlast
    omega

theorem free (h : origin.Ledger build (fun _ => False) (bases ++ [base]) t) (hok : (t.free base).1 = .ok ()) :
    origin.Ledger build (fun _ => False) bases (t.free base).2 := by
  have hkeeps := h.sound.free h.intact base
  have hresult := hkeeps.outcome
  rw [hok] at hresult
  refine ⟨hkeeps.sound, hresult, none_changed _ _, fun hfits' => ?_, fun hfits' => ?_⟩
  · have hfits := hfits'.of_step hkeeps.step
    have hlast : ∀ b ∈ bases.map (·.toNat), ¬ (b == base.toNat) = true := by
      intro b hb hsame
      obtain ⟨other, hother, rfl⟩ := List.mem_map.1 hb
      obtain rfl := UInt32.toNat_inj.1 (beq_iff_eq.1 hsame)
      exact (List.nodup_append.1 (h.nodup hfits)).2.2 other hother other (List.mem_singleton_self _) rfl
    have herase : (t.blocks.map (·.base)).eraseP (· == base.toNat) =
        (t.blocks.eraseP (·.base == base.toNat)).map (·.base) := List.eraseP_map
    have hlone : [base.toNat].eraseP (· == base.toNat) = [] := List.eraseP_cons_of_pos (beq_self_eq_true _)
    rw [h.blocks hfits, List.map_append, List.eraseP_append_right _ hlast, List.map_singleton, hlone,
      List.append_nil] at herase
    unfold Target.free
    rw [if_pos ((isAllocated_iff (h.blocks hfits)).2 (List.mem_append_right _ (List.mem_singleton_self _)))]
    exact herase.symm
  · exact (List.nodup_append.1 (h.nodup (hfits'.of_step hkeeps.step))).1

end Blocks

end Ledger

/-! ### Blocks that are left -/

/-- The blocks `kept` are left for good. There is at most one more, and as long as there is, some site is changed. -/
structure Owing (origin : Target) (kept rest : List UInt32) (t : Target) : Prop where
  blocks : t.Fits → t.blocks.map (·.base) = (kept ++ rest).map (·.toNat)
  nodup : t.Fits → (kept ++ rest).Nodup
  rest : rest = [] ∨ ∃ base, rest = [base] ∧ (t.Fits → ∃ site, ¬ origin.Intact t site)

theorem Ledger.owing (h : origin.Ledger build changed bases t) : origin.Owing bases [] t := by
  refine ⟨?_, ?_, .inl rfl⟩
  · rw [List.append_nil]
    exact h.blocks
  · rw [List.append_nil]
    exact h.nodup

theorem Ledger.owing_one (h : origin.Ledger build changed (bases ++ [base]) t) (site : Site) (hsite : changed site) :
    origin.Owing bases [base] t :=
  ⟨h.blocks, h.nodup, .inr ⟨base, rfl, fun hfits => ⟨site, h.changed hfits site hsite⟩⟩⟩

theorem Owing.drift {rest : List UInt32} (h : origin.Owing bases rest t) (hsound : origin.Sound t)
    (hdrift : t.Drifts t') : origin.Owing bases rest t' := by
  have hback : t'.Fits → t.Fits := fun hfits' => hfits'.of_step hdrift.shape.step
  refine ⟨fun hfits' => hdrift.shape.bases.trans (h.blocks (hback hfits')), fun hfits' => h.nodup (hback hfits'),
    h.rest.imp id ?_⟩
  rintro ⟨base, hbase, hsome⟩
  refine ⟨base, hbase, fun hfits' => ?_⟩
  obtain ⟨site, hsite⟩ := hsome (hback hfits')
  refine ⟨site, ?_⟩
  unfold Intact
  rwa [hsound.entry_of_drift hdrift (hback hfits')]

theorem Owing.rest_eq_nil {rest : List UInt32} (h : origin.Owing bases rest t) (hfits : t.Fits)
    (hintact : ∀ site, origin.Intact t site) : rest = [] := by
  rcases h.rest with hnone | ⟨base, -, hsome⟩
  · exact hnone
  · obtain ⟨site, hsite⟩ := hsome hfits
    exact absurd (hintact site) hsite

theorem Owing.ledger_kept {rest : List UInt32} (h : origin.Owing bases rest t) (hsound : origin.Sound t)
    (hintact : origin.IntactBut build (fun _ => False) t) : origin.Ledger build (fun _ => False) bases t := by
  have hrest : t.Fits → rest = [] := fun hfits => h.rest_eq_nil hfits fun site => (hintact hfits).2 site id
  refine ⟨hsound, hintact, fun _ _ h => h.elim, fun hfits => ?_, fun hfits => ?_⟩
  · have hblocks := h.blocks hfits
    rwa [hrest hfits, List.append_nil] at hblocks
  · have hnodup := h.nodup hfits
    rwa [hrest hfits, List.append_nil] at hnodup

theorem Owing.ledger_all (h : origin.Owing bases [base] t) (hsound : origin.Sound t) (hown : t.Fits → origin.Own build)
    (hchanged : origin.Changed (fun _ => True) t) : origin.Ledger build (fun _ => True) (bases ++ [base]) t :=
  ⟨hsound, fun hfits => ⟨hown hfits, fun _ hnot => (hnot trivial).elim⟩, hchanged, h.blocks, h.nodup⟩

/-! ### Installed blocks -/

/-- The ledger of a process with a complete block at `base`. -/
structure Installed (origin : Target) (build : Build) (base : UInt32) (changed : Site → Prop) (bases : List UInt32)
    (t : Target) : Prop where
  ledger : origin.Ledger build changed bases t
  holds : t.Fits → t.HoldsHead (Head.placed (build.snapshots origin.moduleBase) base).code

theorem Installed.of_unmoved (h : origin.Installed build base changed bases t) (hsame : t.Unmoved t') :
    origin.Installed build base changed bases t' :=
  ⟨h.ledger.of_unmoved hsame, fun hfits' => hsame.holdsHead (h.holds (hfits'.of_step hsame.shape.step))⟩

theorem Ledger.fill (h : origin.Ledger build (fun _ => False) bases t) (hbase : base ∈ bases)
    (hok : (t.write base (Head.placed (build.snapshots origin.moduleBase) base).code.bytes).1 = .ok ()) :
    origin.Installed build base (fun _ => False) bases
      (t.write base (Head.placed (build.snapshots origin.moduleBase) base).code.bytes).2 := by
  have hsize := size_placed build origin.moduleBase base
  have hkeeps := @Sound.fill origin t build h.intact h.sound (Head.placed (build.snapshots origin.moduleBase) base).code
    (by omega) (by rw [hsize]; decide) fun hfits => (isAllocated_iff (h.blocks hfits)).2 hbase
  have hresult := hkeeps.outcome
  rw [show (Head.placed (build.snapshots origin.moduleBase) base).code.base = base from rfl] at hkeeps hresult
  rw [hok] at hresult
  exact ⟨⟨hkeeps.sound, hresult.1, none_changed _ _, fun hfits' => (h.bases_of_write _ _ hfits').1,
    fun hfits' => (h.bases_of_write _ _ hfits').2⟩, hresult.2⟩

theorem Installed.redirect (h : origin.Installed build base changed bases t) (hbuild : build ∈ Build.known)
    {pair : SiteLayout × Snapshot} (hpair : pair ∈ Head.pairs (build.snapshots origin.moduleBase))
    (hok : (t.write pair.2.code.base (LoadRemover.redirect pair.2.code.base
      ((Head.placed (build.snapshots origin.moduleBase) base).wrapperAddress pair.1)).bytes).1 = .ok ()) :
    origin.Installed build base (fun site => changed site ∨ site = pair.2.site) bases
      (t.write pair.2.code.base (LoadRemover.redirect pair.2.code.base
        ((Head.placed (build.snapshots origin.moduleBase) base).wrapperAddress pair.1)).bytes).2 := by
  obtain ⟨hledger, hholds⟩ := h
  have hkeeps := hledger.sound.redirect hbuild hpair hledger.intact hholds
  have hresult := hkeeps.outcome
  rw [hok] at hresult
  have hchanged := hledger.sound.redirect_changes hbuild (List.of_mem_zip hpair).2 _ hledger.intact hledger.changed hok
  exact ⟨⟨hkeeps.sound, hresult.1, hchanged, fun hfits' => (hledger.bases_of_write _ _ hfits').1,
    fun hfits' => (hledger.bases_of_write _ _ hfits').2⟩, hresult.2⟩

end Target

end InMemory

end LoadRemover
