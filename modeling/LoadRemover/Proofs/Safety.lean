import LoadRemover.Proofs.Finding
import LoadRemover.Proofs.Patching
import LoadRemover.Proofs.Recording
import LoadRemover.Proofs.Redirects

/-!
# Sessions keep processes sound

What an engine does to its process, seen from all processes of a world: `World.Kept` says that they all are sound and
in later states than at the start. The parts of a session are carried through with the rules of patching; what is
true of the session's own process in between is given by `IntactBut`.
-/

namespace LoadRemover.InMemory

open Target (IntactBut Changed)

/-- Access to the processes, with injected failures and on record. -/
def observed : Platform (Recorded (Faulty World)) Handle := Recorded.platform (Faulty.platform World.platform)

/-- How a process began, given how all of them began. -/
def beginning (origins : List Target) (slot : Nat) : Target := origins.getD slot World.absent

namespace World

def Good (origins : List Target) (w : World) : Prop :=
  w.targets.length ≤ origins.length ∧ ∀ slot < w.targets.length, (beginning origins slot).Sound (w.target slot)

/-- All processes are sound, and they are later states of those in the world `start`. -/
structure Kept (w : World) (origins : List Target) (start : World) : Prop where
  length : w.targets.length = origins.length
  sound : ∀ slot, (beginning origins slot).Sound (w.target slot)
  step : ∀ slot, (start.target slot).Step (w.target slot)

variable {origins : List Target} {start w : World} {handle : Handle} {α : Type}

theorem Kept.good (h : w.Kept origins start) : w.Good origins :=
  ⟨Nat.le_of_eq h.length, fun slot _ => h.sound slot⟩

/-- The first world is good, and none of its processes has released a block while a site might lead there. -/
def Linked (origins : List Target) (w w' : World) : Prop :=
  w.Good origins ∧ ∀ slot < w.targets.length, (beginning origins slot).Spares (w.target slot) (w'.target slot)

theorem Kept.linked (h : w.Kept origins start) : w.Linked origins w :=
  ⟨h.good, fun _ _ => (Target.SameShape.refl _).spares⟩

theorem target_setTarget (w : World) (slot : Nat) (t : Target) (slot' : Nat) :
    (w.setTarget slot t).target slot' = if slot' = slot ∧ slot < w.targets.length then t else w.target slot' := by
  unfold setTarget target
  simp only [List.getD_eq_getElem?_getD, List.getElem?_set]
  by_cases hslot : slot' = slot
  · subst hslot
    by_cases hlt : slot' < w.targets.length
    · simp [hlt]
    · simp [hlt]
  · simp [hslot, Ne.symm hslot]

section Access

variable {f : Target → Except Failure α × Target} (habsent : (f absent).2 = absent)
include habsent

theorem target_access (w : World) (slot slot' : Nat) :
    (w.setTarget slot (f (w.target slot)).2).target slot' =
      if slot' = slot then (f (w.target slot)).2 else w.target slot' := by
  rw [target_setTarget]
  by_cases hslot : slot' = slot
  · subst hslot
    by_cases hlt : slot' < w.targets.length
    · rw [if_pos ⟨rfl, hlt⟩, if_pos rfl]
    · -- there is no such process
      have hgone : w.target slot' = absent := by
        unfold target
        rw [List.getD_eq_getElem?_getD, List.getElem?_eq_none (Nat.le_of_not_lt hlt)]
        rfl
      rw [if_neg fun h => hlt h.2, if_pos rfl, hgone, habsent]
  · rw [if_neg fun h => hslot h.1, if_neg hslot]

/-- An access that keeps a process sound keeps them all so. -/
private theorem moves_onTarget {pre failed : Target → Prop} {post : α → Target → Prop}
    (h : ∀ t, (beginning origins handle.slot).Sound t → pre t →
      (beginning origins handle.slot).Keeps t (f t) post failed) :
    Attempt.Moves (Linked origins) (fun w => w.Kept origins start ∧ pre (w.target handle.slot))
      (platform.onTarget handle f) (fun a w => w.Kept origins start ∧ post a (w.target handle.slot))
      fun w => w.Kept origins start ∧ failed (w.target handle.slot) := by
  refine Attempt.moves_iff.2 fun w ⟨hkept, hpre⟩ => ?_
  obtain ⟨hsound, hstep, hspares, hresult⟩ := h _ (hkept.sound handle.slot) hpre
  have haccess := target_access habsent w handle.slot
  have hhere := (haccess handle.slot).trans (if_pos rfl)
  have hkept' : (w.setTarget handle.slot (f (w.target handle.slot)).2).Kept origins start := by
    refine ⟨(List.length_set ..).trans hkept.length, fun slot => ?_, fun slot => ?_⟩
    all_goals
      rw [haccess]
      by_cases hslot : slot = handle.slot
    · subst hslot
      rw [if_pos rfl]
      exact hsound
    · rw [if_neg hslot]
      exact hkept.sound slot
    · subst hslot
      rw [if_pos rfl]
      exact (hkept.step handle.slot).trans hstep
    · rw [if_neg hslot]
      exact hkept.step slot
  have hlinked : w.Linked origins (w.setTarget handle.slot (f (w.target handle.slot)).2) := by
    refine ⟨hkept.good, fun slot _ => ?_⟩
    rw [haccess]
    by_cases hslot : slot = handle.slot
    · subst hslot
      rw [if_pos rfl]
      exact hspares
    · rw [if_neg hslot]
      exact (Target.SameShape.refl _).spares
  refine Attempt.Ensures.onWorld fun w' hw' => ?_
  simp only [show w' = w from hw']
  cases houtcome : (f (w.target handle.slot)).1 with
  | ok a =>
    rw [houtcome] at hresult
    refine ⟨⟨hkept', ?_⟩, hlinked⟩
    rw [hhere]
    exact hresult
  | error failure =>
    rw [houtcome] at hresult
    refine ⟨⟨hkept', ?_⟩, hlinked⟩
    rw [hhere]
    exact hresult

end Access

end World

/-! ### Undoing and attaching -/

/-- All worlds so far are linked, and all processes are in later states than in the world `start`. -/
def Safe (origins : List Target) (start : World) : Recorded (Faulty World) → Prop :=
  Recorded.Seen (fun s s' => s.world.Linked origins s'.world) fun s => s.world.Kept origins start

/-- It is safe, and the process in question is in a certain state. -/
def SafeWith (origins : List Target) (start : World) (slot : Nat) (here : Target → Prop) :
    Recorded (Faulty World) → Prop :=
  Recorded.Seen (fun s s' => s.world.Linked origins s'.world) fun s =>
    s.world.Kept origins start ∧ here (s.world.target slot)

/-- It is safe, and the process in question is of the build and has its other sites intact. -/
def SafeBut (origins : List Target) (start : World) (slot : Nat) (build : Build) (sites : Site → Prop) :
    Recorded (Faulty World) → Prop :=
  SafeWith origins start slot (IntactBut (beginning origins slot) build sites)

section Patching

variable {origins : List Target} {start : World} {slot : Nat} {build : Build} {sites : Site → Prop}

private theorem SafeWith.safe {here : Target → Prop} {s : Recorded (Faulty World)}
    (h : SafeWith origins start slot here s) :
    Safe origins start s :=
  h.mono fun _ hw => hw.1

private theorem SafeWith.mono {here here' : Target → Prop} {s : Recorded (Faulty World)}
    (h : SafeWith origins start slot here s) (himp : ∀ t, here t → here' t) : SafeWith origins start slot here' s :=
  Recorded.Seen.mono h fun _ hw => ⟨hw.1, himp _ hw.2⟩

private theorem SafeBut.mono {sites' : Site → Prop} {s : Recorded (Faulty World)}
    (h : SafeBut origins start slot build sites s) (hsites : ∀ site, sites site → sites' site) :
    SafeBut origins start slot build sites' s :=
  SafeWith.mono h fun _ ht => ht.mono fun _ => hsites

private theorem ensures_access {α : Type} {f : Target → Except Failure α × Target} {handle : Handle}
    {pre failed : Target → Prop} {post : α → Target → Prop} (habsent : (f World.absent).2 = World.absent)
    (hkeeps : ∀ t, (beginning origins handle.slot).Sound t → pre t →
      (beginning origins handle.slot).Keeps t (f t) post failed)
    (hfailed : ∀ t, pre t → failed t) (pid : UInt32) (operation : Operation) :
    Attempt.Ensures (SafeWith origins start handle.slot pre)
      (Recorded.attempted (Faulty.guarded pid operation (World.platform.onTarget handle f)))
      (fun a => SafeWith origins start handle.slot (post a)) (SafeWith origins start handle.slot failed) :=
  Recorded.ensures_attempted (Faulty.moves_guarded (World.moves_onTarget habsent hkeeps)
    (fun _ hw => ⟨⟨hw.1, hfailed _ hw.2⟩, hw.1.linked⟩) pid operation)

/-! ### Single accesses -/

section Accesses

variable {handle : Handle}

private theorem ensures_putBack (hbuild : build ∈ Build.known) {snapshot : Snapshot}
    (hsnapshot : snapshot ∈ build.snapshots (beginning origins handle.slot).moduleBase) :
    Attempt.Ensures (SafeBut origins start handle.slot build sites)
      (observed.write handle snapshot.code.base snapshot.code.bytes)
      (fun _ => SafeBut origins start handle.slot build fun site => sites site ∧ site ≠ snapshot.site)
      (SafeBut origins start handle.slot build sites) :=
  ensures_access rfl (fun _ hsound hintact => hsound.put_back hbuild hsnapshot hintact) (fun _ h => h) handle.pid .write

/-- The sites `done` were redirected to the block at `base`, which is filled. -/
def Diverted (origins : List Target) (start : World) (slot : Nat) (build : Build) (base : UInt32)
    (done : List (SiteLayout × Snapshot)) : Recorded (Faulty World) → Prop :=
  SafeWith origins start slot fun t => IntactBut (beginning origins slot) build (SitesOf done) t ∧
    (t.Fits → t.HoldsHead (Head.placed (build.snapshots (beginning origins slot).moduleBase) base).code) ∧
    Changed (beginning origins slot) (SitesOf done) t

private theorem ensures_redirect (hbuild : build ∈ Build.known) (base : UInt32) (done : List (SiteLayout × Snapshot))
    {pair : SiteLayout × Snapshot}
    (hpair : pair ∈ Head.pairs (build.snapshots (beginning origins handle.slot).moduleBase)) :
    Attempt.Ensures (Diverted origins start handle.slot build base done)
      (observed.write handle pair.2.code.base (redirect pair.2.code.base
        ((Head.placed (build.snapshots (beginning origins handle.slot).moduleBase) base).wrapperAddress pair.1)).bytes)
      (fun _ => Diverted origins start handle.slot build base (done ++ [pair]))
      (SafeBut origins start handle.slot build (SitesOf (done ++ [pair]))) := by
  have hearlier : ∀ site, SitesOf done site → SitesOf (done ++ [pair]) site := fun _ hsite =>
    sitesOf_concat.2 (.inl hsite)
  refine (ensures_access rfl (fun t hsound (hhere : IntactBut (beginning origins handle.slot) build (SitesOf done) t ∧
    _ ∧ Changed (beginning origins handle.slot) (SitesOf done) t) =>
      (hsound.redirect hbuild hpair hhere.1 hhere.2.1).and_ok
        fun _ hok => hsound.redirect_changes hbuild (List.of_mem_zip hpair).2 _ hhere.1 hhere.2.2 hok) (fun _ h => h.1)
    handle.pid .write).ends_mono (fun _ _ hw => hw.mono ?_) fun _ hw => SafeBut.mono hw hearlier
  rintro t ⟨⟨hintact, hholds⟩, hchanged⟩
  exact ⟨hintact.mono fun _ _ => sitesOf_concat.2, hholds, fun hfits site hsite =>
    hchanged hfits site (sitesOf_concat.1 hsite)⟩

private theorem ensures_allocate (build : Build) (handle : Handle) {size : Nat} (hsize : size ≤ Target.pageSize) :
    Attempt.Ensures
      (SafeBut origins start handle.slot build fun _ => False)
      (observed.allocate handle size)
      (fun base => SafeWith origins start handle.slot fun t =>
        IntactBut (beginning origins handle.slot) build (fun _ => False) t ∧ (t.Fits → t.isAllocated base = true))
      (SafeBut origins start handle.slot build fun _ => False) :=
  ensures_access rfl (fun _ hsound hintact => hsound.allocate hintact hsize) (fun _ h => h) handle.pid .allocate

private theorem ensures_fill (build : Build) (handle : Handle) (code : Code) (hpos : 0 < code.size)
    (hsize : code.size ≤ Target.pageSize) :
    Attempt.Ensures
      (SafeWith origins start handle.slot fun t =>
        IntactBut (beginning origins handle.slot) build (fun _ => False) t ∧ (t.Fits → t.isAllocated code.base = true))
      (observed.write handle code.base code.bytes)
      (fun _ => SafeWith origins start handle.slot fun t =>
        IntactBut (beginning origins handle.slot) build (fun _ => False) t ∧ (t.Fits → t.HoldsHead code))
      (SafeBut origins start handle.slot build fun _ => False) :=
  ensures_access rfl (fun _ hsound hhere => hsound.fill hhere.1 hpos hsize hhere.2) (fun _ h => h.1) handle.pid .write

private theorem ensures_free (build : Build) (handle : Handle) (base : UInt32) :
    Attempt.Ensures
      (SafeBut origins start handle.slot build fun _ => False)
      (observed.free handle base)
      (fun _ => SafeBut origins start handle.slot build fun _ => False)
      (SafeBut origins start handle.slot build fun _ => False) :=
  ensures_access rfl (fun _ hsound hintact => hsound.free hintact base) (fun _ h => h) handle.pid .free

end Accesses

variable {handle : Handle} (hbuild : build ∈ Build.known)
include hbuild

/-- A rollback of all sites that may have changed is safe, also when it stops halfway. -/
theorem ensures_rollback {snapshots : List Snapshot}
    (hsnapshots : snapshots ⊆ build.snapshots (beginning origins handle.slot).moduleBase) (head : UInt32) :
    Action.Ensures
      (SafeBut origins start handle.slot build fun site => ∃ s ∈ snapshots, s.site = site)
      (observed.rollback handle snapshots head) fun _ => Safe origins start := by
  -- while sites are put back, those still to come may be redirected
  let back (done : List (Snapshot × Bool)) : Recorded (Faulty World) → Prop :=
    SafeBut origins start handle.slot build fun site => ∃ s ∈ snapshots, (s, true) ∉ done ∧ s.site = site
  have hkept : ∀ done s w, back done w → back (done ++ [(s, false)]) w := by
    refine fun done s w hw => hw.mono ?_
    rintro site ⟨s', hs', hopen, hsite⟩
    exact ⟨s', hs', by simpa using hopen, hsite⟩
  have hrollback : Action.Ensures (back []) (observed.rollback handle snapshots head) fun _ => Safe origins start := by
    refine Platform.ensures_rollback back ?_ (fun done s _ _ _ => hkept done s) ?_ fun _ _ _ _ h => h.safe
    · intro done s rest hdone
      have hs : s ∈ snapshots := by
        rw [← hdone]
        exact List.mem_append_right _ (List.mem_cons_self ..)
      refine (ensures_putBack hbuild (hsnapshots hs)).ends_mono (fun _ _ hw => hw.mono ?_) (hkept done s)
      rintro site ⟨⟨s', hs', hopen, rfl⟩, hne⟩
      refine ⟨s', hs', fun hmem => ?_, rfl⟩
      rcases List.mem_append.1 hmem with hmem | hmem
      · exact hopen hmem
      · obtain ⟨rfl, -⟩ := Prod.mk.inj (List.mem_singleton.1 hmem)
        exact hne rfl
    · -- nothing is left to be put back
      intro done hdone hall
      refine (ensures_free build handle head).mono (fun _ hw => SafeBut.mono hw ?_) (fun _ _ hw => hw.safe)
        fun _ hw => hw.safe
      rintro site ⟨s, hs, hopen, -⟩
      rw [← hdone] at hs
      obtain ⟨⟨s, success⟩, hmem, rfl⟩ := List.mem_map.1 hs
      obtain rfl : success = true := List.all_eq_true.1 hall _ hmem
      exact hopen hmem
  refine hrollback.mono (fun _ hw => hw.mono ?_) fun _ _ hw => hw
  rintro site ⟨s, hs, rfl⟩
  exact ⟨s, hs, List.not_mem_nil, rfl⟩

omit hbuild in
theorem ensures_close : Action.Ensures (Safe origins start) (observed.close handle) fun _ => Safe origins start := by
  refine Recorded.ensures_noted fun s hs => ?_
  rintro _ rfl
  exact ⟨hs, hs.linked⟩

/-- Attaching is safe, whatever fails and however its undoing fails. -/
theorem ensures_attach {moduleBase : UInt32} (hbase : moduleBase = (beginning origins handle.slot).moduleBase) :
    Attempt.Ensures (SafeBut origins start handle.slot build fun _ => False)
      (observed.attach ⟨handle, build, moduleBase, build.snapshots moduleBase⟩)
      (fun session s => (∃ base, session = .start ⟨handle, build, moduleBase, build.snapshots moduleBase⟩ base) ∧
        SafeWith origins start handle.slot (fun t => (t.Fits → (beginning origins handle.slot).Own build) ∧
          Changed (beginning origins handle.slot) (fun _ => True) t) s)
      (Safe origins start) := by
  subst hbase
  let snapshots := build.snapshots (beginning origins handle.slot).moduleBase
  let untouched : Recorded (Faulty World) → Prop := SafeBut origins start handle.slot build fun _ => False
  let found (base : UInt32) : Recorded (Faulty World) → Prop := SafeWith origins start handle.slot fun t =>
    IntactBut (beginning origins handle.slot) build (fun _ => False) t ∧ (t.Fits → t.isAllocated base = true)
  let touched (done : List (SiteLayout × Snapshot)) : Recorded (Faulty World) → Prop :=
    SafeBut origins start handle.slot build (SitesOf done)
  have hsize : (Head.build snapshots).code.size ≤ Target.pageSize := by
    rw [size_build]
    decide
  have hplaced : ∀ base, (Head.placed snapshots base).code.size = 162 := size_placed build _
  have hallocate : Attempt.Ensures untouched (observed.allocate handle (Head.build snapshots).code.size) found
      (Safe origins start) :=
    (ensures_allocate build handle hsize).failed_mono fun _ hw => hw.safe
  have hfill : ∀ base, Attempt.Ensures (found base)
      (observed.write handle base (Head.placed snapshots base).code.bytes)
      (fun _ => Diverted origins start handle.slot build base []) untouched := by
    intro base
    refine (ensures_fill build handle (Head.placed snapshots base).code ?_ ?_).post_mono fun _ _ hw =>
      hw.mono fun t ht => ⟨ht.1.mono fun _ _ h => h.elim, ht.2, ?_⟩
    · rw [hplaced]
      omega
    · rw [hplaced]
      decide
    · exact fun _ _ hsite => absurd hsite not_sitesOf_nil
  have hunfill : ∀ base, Attempt.Ensures untouched (observed.free handle base) (fun _ => Safe origins start)
      (Safe origins start) := fun base =>
    (ensures_free build handle base).ends_mono (fun _ _ hw => hw.safe) fun _ hw => hw.safe
  -- the site whose redirection failed is put back as well
  have hrollback : ∀ base done pair rest, done ++ pair :: rest = Head.pairs snapshots →
      Action.Ensures (touched (done ++ [pair])) (observed.rollback handle ((done ++ [pair]).map (·.2)) base)
        fun _ => Safe origins start := by
    intro base done pair rest hpairs
    refine (ensures_rollback hbuild (Head.subset_of_pairs hpairs) base).mono (fun _ hw => hw.mono ?_) fun _ _ hw => hw
    rintro site ⟨pair, hpair, hsite⟩
    exact ⟨pair.2, List.mem_map_of_mem hpair, hsite⟩
  refine (Platform.ensures_attach found (fun _ => untouched) (Diverted origins start handle.slot build)
    (fun _ => touched) hallocate hfill (fun _ _ _ hw => hw.mono fun _ ht => ht.1) hunfill
    (fun base done pair rest hpairs => ensures_redirect hbuild base done (Head.mem_pairs hpairs)) ?_ hrollback
    ensures_close).post_mono ?_
  · intro base done pair _ _ _ w hw
    exact hw.mono fun t ht => ht.1.mono fun _ site hsite => sitesOf_concat.2 (.inl hsite)
  · rintro session w ⟨base, hsession, hw⟩
    refine ⟨⟨base, hsession⟩, hw.mono fun t ht => ⟨fun hfits => (ht.1 hfits).1, fun hfits site _ => ?_⟩⟩
    exact ht.2.2 hfits site (sitesOf_pairs build _ site)

end Patching

end LoadRemover.InMemory
