import LoadRemover.Proofs.Ledger

/-!
# What a session leaves behind

The accesses of a call, together with the ledger of its process, through all parts of a session. Undoing releases the
block if every site could be put back, and otherwise keeps it (`ensures_rollback_tallied`). An attempt to attach that
fails leaves its block for good if it could not be released, or if the last site could neither be redirected nor put
back (`ensures_attach_tallied`). If another site could not be put back, the block is `Owing`: it stays, but only as
long as this site leads there.
-/

namespace LoadRemover

/-! ### Looking -/

/-- Looking at processes counts for nothing. -/
private theorem Journal.quiet_tallied {σ π : Type} {inner : Platform σ π} {sight : Sight π} {now : σ → Prop}
    (h : inner.Quiet sight now now) (tally : Tally) :
    (platform inner).Quiet sight (fun s => Tally.of s.accesses = tally ∧ now s.world)
      fun s => Tally.of s.accesses = tally ∧ now s.world := by
  have hnoted : ∀ {α : Type} {describe : α → Access} {action : Action σ α},
      (∀ a, tally.add (describe a) = tally) → Action.Ensures now action (fun _ => now) →
      Action.Ensures (fun s : Journal σ => Tally.of s.accesses = tally ∧ now s.world) (noted describe action)
        fun _ s => Tally.of s.accesses = tally ∧ now s.world := by
    intro α describe action hadd haction
    refine @ensures_noted _ _ describe action (fun accesses w => Tally.of accesses = tally ∧ now w)
      (fun _ accesses w => Tally.of accesses = tally ∧ now w) fun accesses => Action.Ensures.of_imp ?_
    rintro rfl
    refine haction.post_mono fun a w hw => ⟨?_, hw⟩
    rw [Tally.of_concat, hadd]
  have hknown : ∀ {α : Type} {describe : Except Failure α → Access} {attempt : Attempt σ α} {known : α → Prop},
      (∀ result, tally.add (describe result) = tally) →
      Attempt.Ensures now attempt (fun a w => known a ∧ now w) now →
      Attempt.Ensures (fun s : Journal σ => Tally.of s.accesses = tally ∧ now s.world) (attempted describe attempt)
        (fun a s => known a ∧ Tally.of s.accesses = tally ∧ now s.world)
        fun s => Tally.of s.accesses = tally ∧ now s.world := by
    intro α describe attempt known hadd hattempt
    refine @ensures_attempted _ _ describe attempt (fun accesses w => Tally.of accesses = tally ∧ now w)
      (fun a accesses w => known a ∧ Tally.of accesses = tally ∧ now w)
      (fun accesses w => Tally.of accesses = tally ∧ now w) fun accesses => Action.Ensures.of_imp ?_
    rintro rfl
    refine hattempt.ends_mono (fun a w hw => ⟨hw.1, ?_, hw.2⟩) fun w hw failure => ⟨?_, hw⟩
    · rw [Tally.of_concat, hadd]
    · rw [Tally.of_concat, hadd]
  have hkept : ∀ {α : Type} {describe : Except Failure α → Access} {attempt : Attempt σ α},
      (∀ result, tally.add (describe result) = tally) → Attempt.Ensures now attempt (fun _ => now) now →
      Attempt.Ensures (fun s : Journal σ => Tally.of s.accesses = tally ∧ now s.world) (attempted describe attempt)
        (fun _ s => Tally.of s.accesses = tally ∧ now s.world) fun s => Tally.of s.accesses = tally ∧ now s.world :=
    fun hadd hattempt =>
      (@hknown _ _ _ (fun _ => True) hadd (hattempt.post_mono fun _ _ hw => ⟨trivial, hw⟩)).post_mono fun _ _ hs => hs.2
  refine ⟨hkept (fun _ => rfl) h.processes, fun info => hkept (fun _ => rfl) (h.openProcess info),
    fun process => hnoted (fun _ => rfl) (h.close process), fun process => hnoted (fun _ => rfl) (h.close process),
    fun process => ?_, fun process => hknown (fun _ => rfl) (h.is64Bit process),
    fun process => hknown (fun _ => rfl) (h.moduleBase process),
    fun process a n => hknown (fun _ => rfl) (h.read process a n)⟩
  simp only [ite_self]
  exact hnoted (fun _ => rfl) (h.ensures_hasExited (fun _ hw => hw) process)

namespace InMemory

open Target (Ledger Unmoved)

/-! ### Accesses -/

/-- The accesses so far have this tally, and this holds of the process. -/
def Stands (handle : Handle) (tally : Tally) (here : Target → Prop) (s : Journal (Faulty World)) : Prop :=
  Tally.of s.accesses = tally ∧ here (s.world.world.target handle.slot)

section Accesses

variable {handle : Handle} {tally : Tally} {here : Target → Prop}

/-- An access that fails leaves the process unmoved. -/
private theorem ensures_tallied {α : Type} {f : Target → Except Failure α × Target}
    (habsent : (f World.absent).2 = World.absent) {describe : Except Failure α → Access} {done : α → Tally}
    {failed : Tally} {next : α → Target → Prop}
    (hok : ∀ t, here t → ∀ a, (f t).1 = .ok a → next a (f t).2)
    (herror : ∀ t failure, (f t).1 = .error failure → t.Unmoved (f t).2)
    (hsame : ∀ t t', here t → t.Unmoved t' → here t')
    (hdone : ∀ a, tally.add (describe (.ok a)) = done a)
    (hfailed : ∀ failure, tally.add (describe (.error failure)) = failed) (pid : UInt32) (operation : Operation) :
    Attempt.Ensures (Stands handle tally here)
      (Journal.attempted describe (Faulty.guarded pid operation (World.platform.onTarget handle f)))
      (fun a => Stands handle (done a) (next a)) (Stands handle failed here) := by
  refine @Journal.ensures_attempted _ _ describe _
    (fun accesses (s : Faulty World) => Tally.of accesses = tally ∧ here (s.world.target handle.slot))
    (fun a accesses (s : Faulty World) => Tally.of accesses = done a ∧ next a (s.world.target handle.slot))
    (fun accesses (s : Faulty World) => Tally.of accesses = failed ∧ here (s.world.target handle.slot))
    fun accesses => Action.Ensures.of_imp ?_
  rintro rfl
  have haccess := @ensures_onTarget α handle next f habsent here here hok
    (fun t ht failure h => hsame _ _ ht (herror t failure h)) (fun _ ht => ht) pid operation
  refine haccess.ends_mono (fun a _ hs => ⟨?_, hs⟩) fun _ hs failure => ⟨?_, hs⟩
  · rw [Tally.of_concat, hdone]
  · rw [Tally.of_concat, hfailed]

private theorem ensures_write_tallied {next : Target → Prop} {address : UInt32} {bytes : Bytes}
    (hok : ∀ t, here t → (t.write address bytes).1 = .ok () → next (t.write address bytes).2)
    (hsame : ∀ t t', here t → t.Unmoved t' → here t') :
    Attempt.Ensures (Stands handle tally here) ((Journal.platform processes).write handle address bytes)
      (fun _ => Stands handle tally next) (Stands handle (tally.refuse address bytes.length) here) := by
  refine ensures_tallied rfl (fun t ht _ hresult => hok t ht hresult) (fun t failure hresult => ?_) hsame (fun _ => rfl)
    (fun _ => rfl) handle.pid .write
  obtain ⟨hshape, hregions⟩ := t.write_spec address bytes
  rw [hresult] at hregions
  exact ⟨hshape, hregions⟩

private theorem ensures_allocate_tallied {next : UInt32 → Target → Prop} {size : Nat}
    (hok : ∀ t, here t → ∀ base, (t.allocate size).1 = .ok base → next base (t.allocate size).2)
    (hsame : ∀ t t', here t → t.Unmoved t' → here t') :
    Attempt.Ensures (Stands handle tally here) ((Journal.platform processes).allocate handle size)
      (fun base => Stands handle { tally with block? := some base } (next base)) (Stands handle tally here) := by
  refine ensures_tallied rfl hok (fun t failure hresult => ?_) hsame (fun _ => rfl) (fun _ => rfl) handle.pid .allocate
  unfold Target.allocate at hresult ⊢
  split at hresult
  · rename_i hexited
    rw [if_pos hexited]
    exact .refl t
  · cases hresult

private theorem ensures_free_tallied {next : Target → Prop} {base : UInt32}
    (hok : ∀ t, here t → (t.free base).1 = .ok () → next (t.free base).2)
    (hsame : ∀ t t', here t → t.Unmoved t' → here t') :
    Attempt.Ensures (Stands handle tally here) ((Journal.platform processes).free handle base)
      (fun _ => Stands handle tally next) (Stands handle { tally with unfreed := tally.unfreed ++ [base] } here) := by
  refine ensures_tallied rfl (fun t ht _ hresult => hok t ht hresult) (fun t failure hresult => ?_) hsame (fun _ => rfl)
    (fun _ => rfl) handle.pid .free
  unfold Target.free at hresult ⊢
  split at hresult
  · cases hresult
  · rename_i hnone
    rw [if_neg hnone]
    exact .refl t

end Accesses

/-! ### Undoing -/

private theorem Build.eq_of_base {origin : Target} {build : Build} (hbuild : build ∈ Build.known) {s s' : Snapshot}
    (hs : s ∈ build.snapshots origin.moduleBase) (hs' : s' ∈ build.snapshots origin.moduleBase)
    (hsame : s.code.base = s'.code.base) : s = s' := by
  refine Build.eq_of_site hs hs' (by_contra fun hne => ?_)
  have := origin.siteAddress_apart hne
  rw [Target.base_of_snapshot hbuild hs, Target.base_of_snapshot hbuild hs'] at hsame
  rw [hsame] at this
  omega

section Rollback

variable {origin : Target} {build : Build} {handle : Handle} {tally : Tally} {changed : Site → Prop}
  {bases : List UInt32} {base : UInt32} {snapshots : List Snapshot}

/-- The sites that could not be put back. -/
def leftChanged (undone : List (Snapshot × Bool)) : List Snapshot := (undone.filter fun one => !one.2).map (·.1)

/-- The sites `undone` were to be put back, and which of them are still changed is known. -/
def Undone (origin : Target) (build : Build) (handle : Handle) (tally : Tally) (changed : Site → Prop)
    (bases : List UInt32) (undone : List (Snapshot × Bool)) : Journal (Faulty World) → Prop :=
  Stands handle { tally with codes := tally.codes ++ (leftChanged undone).map (·.code.base) }
    (origin.Ledger build (fun site => changed site ∧ ∀ s, (s, true) ∈ undone → site ≠ s.site) bases)

private theorem ensures_putBack_tallied (hbuild : build ∈ Build.known) {s : Snapshot}
    (hs : s ∈ build.snapshots origin.moduleBase) (undone : List (Snapshot × Bool)) :
    Attempt.Ensures (Undone origin build handle tally changed bases undone)
      ((Journal.platform processes).write handle s.code.base s.code.bytes)
      (fun _ => Undone origin build handle tally changed bases (undone ++ [(s, true)]))
      (Undone origin build handle tally changed bases (undone ++ [(s, false)])) := by
  have hlength := Build.length_snapshots hs
  refine (ensures_write_tallied (fun t ht hok => ht.put_back hbuild hs hok) fun _ _ ht => ht.of_unmoved).ends_mono
    (fun _ w hw => ?_) fun w hw => ?_
  · refine ⟨?_, hw.2.congr fun site => ?_⟩
    · rw [hw.1]
      simp [leftChanged]
    · simp only [List.mem_append, List.mem_singleton, Prod.mk.injEq, and_true, and_assoc]
      refine and_congr_right fun _ => ⟨fun ⟨hold, hnew⟩ s' hs' => ?_, fun hall => ?_⟩
      · rcases hs' with hs' | rfl
        · exact hold s' hs'
        · exact hnew
      · exact ⟨fun s' hs' => hall s' (.inl hs'), hall s (.inr rfl)⟩
  · refine ⟨?_, hw.2.congr fun site => ?_⟩
    · rw [hw.1, hlength]
      simp [Tally.refuse, leftChanged]
    · simp

/-- A rollback releases the block if all sites could be put back. Otherwise the block stays, and so do the changes at
the sites that could not be put back. A block that cannot be released stays as well. -/
private theorem ensures_rollback_tallied (hbuild : build ∈ Build.known)
    (hsnapshots : snapshots ⊆ build.snapshots origin.moduleBase) (hnodup : snapshots.Nodup)
    (hplaced : ∀ s ∈ snapshots, s.code.isPlaced = true)
    (hchanged : ∀ site, changed site → ∃ s ∈ snapshots, s.site = site) :
    Action.Ensures (Stands handle tally (origin.Ledger build changed (bases ++ [base])))
      ((Journal.platform processes).rollback handle snapshots base) fun complete w =>
        if complete = true then
          Stands handle tally (origin.Ledger build (fun _ => False) bases) w ∨
            Stands handle { tally with unfreed := tally.unfreed ++ [base] }
              (origin.Ledger build (fun _ => False) (bases ++ [base])) w
        else
          ∃ lost, lost ≠ [] ∧ lost ⊆ snapshots ∧
            Stands handle { tally with codes := tally.codes ++ lost.map (·.code.base) }
              (origin.Ledger build (fun site => changed site ∧ ∃ s ∈ lost, s.site = site) (bases ++ [base])) w := by
  have hmem : ∀ (done : List (Snapshot × Bool)) s rest, done.map (·.1) ++ s :: rest = snapshots → s ∈ snapshots :=
    fun done s rest hdone => hdone ▸ List.mem_append_right _ (List.mem_cons_self ..)
  refine (Platform.ensures_rollback (Undone origin build handle tally changed (bases ++ [base]))
    (fun done s rest hdone => ensures_putBack_tallied hbuild (hsnapshots (hmem done s rest hdone)) done)
    (fun done s rest hdone hunplaced => ?_) (fun done hdone hall => ?_) (fun done hdone hall w hw => ?_)).mono
    (fun w hw => ⟨?_, hw.2.congr fun site => ?_⟩) fun _ _ hw => hw
  · rw [hplaced s (hmem done s rest hdone)] at hunplaced
    cases hunplaced
  · -- no site is left, so the block may go
    have hnone : ∀ site, (changed site ∧ ∀ s, (s, true) ∈ done → site ≠ s.site) ↔ False := by
      refine fun site => iff_false_intro fun ⟨hsite, hopen⟩ => ?_
      obtain ⟨s, hs, rfl⟩ := hchanged site hsite
      rw [← hdone] at hs
      obtain ⟨⟨s, success⟩, hone, rfl⟩ := List.mem_map.1 hs
      obtain rfl : success = true := List.all_eq_true.1 hall _ hone
      exact hopen s hone rfl
    have hlost : leftChanged done = [] := by
      unfold leftChanged
      rw [List.filter_eq_nil_iff.2 fun one hone => by simp [List.all_eq_true.1 hall one hone], List.map_nil]
    unfold Undone
    rw [hlost, List.map_nil, List.append_nil]
    exact (ensures_free_tallied (fun t ht hok => (ht.congr hnone).free hok) fun _ _ ht => ht.of_unmoved).ends_mono
      (fun _ _ hw => .inl hw) fun _ hw => .inr ⟨hw.1, hw.2.congr hnone⟩
  · obtain ⟨⟨s, success⟩, hone, hfailed⟩ := List.all_eq_false.1 hall
    obtain rfl : success = false := Bool.eq_false_of_not_eq_true hfailed
    have hlost : ∀ s, s ∈ leftChanged done ↔ (s, false) ∈ done := by
      intro s
      simp [leftChanged]
    refine ⟨leftChanged done, List.ne_nil_of_mem ((hlost s).2 hone), fun s' hs' => ?_, hw.1, hw.2.congr fun site => ?_⟩
    · rw [← hdone]
      exact List.mem_map_of_mem ((hlost s').1 hs')
    · refine and_congr_right fun hsite => ⟨fun hopen => ?_, fun ⟨s', hs', hsame⟩ s'' hs'' hne => ?_⟩
      · obtain ⟨s', hs', rfl⟩ := hchanged site hsite
        rw [← hdone] at hs'
        obtain ⟨⟨s', success⟩, hone', rfl⟩ := List.mem_map.1 hs'
        cases success with
        | true => exact absurd rfl (hopen s' hone')
        | false => exact ⟨s', (hlost s').2 hone', rfl⟩
      · -- no site is to be put back twice
        have hs := (hlost s').1 hs'
        have hsame : s' = s'' := Build.eq_of_site (hsnapshots (hdone ▸ List.mem_map_of_mem hs))
          (hsnapshots (hdone ▸ List.mem_map_of_mem hs'')) (hsame.trans hne)
        have hone : (s', false) = (s'', true) :=
          List.inj_on_of_nodup_map (hdone ▸ hnodup) hs hs'' hsame
        cases hone
  · rw [hw.1]
    simp [leftChanged]
  · simp

end Rollback

/-! ### Attaching -/

section Attaching

variable {origin : Target} {build : Build} {handle : Handle} {tally : Tally} {bases : List UInt32} {base : UInt32}

/-- What a call with this tally leaves, if `kept` are the blocks left for good before. -/
def Settled (origin : Target) (kept : List UInt32) (tally : Tally) (t : Target) : Prop :=
  ∃ rest, origin.Owing (kept ++ tally.left) rest t

section Settled

variable {kept : List UInt32} {changed : Site → Prop} {t : Target}

private theorem Settled.of_ledger (hbases : kept ++ tally.left = bases) (h : origin.Ledger build changed bases t) :
    Settled origin kept tally t := by
  refine ⟨[], ?_⟩
  rw [hbases]
  exact h.owing

private theorem Settled.of_ledger_one (hnone : tally.left = []) (h : origin.Ledger build changed (kept ++ [base]) t)
    (site : Site) (hsite : changed site) : Settled origin kept tally t := by
  refine ⟨[base], ?_⟩
  rw [hnone, List.append_nil]
  exact h.owing_one site hsite

end Settled

private theorem ensures_close_kept {holds : List Access → Target → Prop}
    (hclose : ∀ accesses t, holds accesses t → holds (accesses ++ [.close]) t) :
    Action.Ensures (fun s => holds s.accesses (s.world.world.target handle.slot))
      ((Journal.platform processes).close handle) fun _ s => holds s.accesses (s.world.world.target handle.slot) :=
  @Journal.ensures_noted _ _ (fun _ => .close) _
    (fun accesses (w : Faulty World) => holds accesses (w.world.target handle.slot))
    (fun _ accesses (w : Faulty World) => holds accesses (w.world.target handle.slot))
    fun accesses _ hs => hclose accesses _ hs

private theorem Settled.close {kept : List UInt32} {accesses : List Access} {t : Target}
    (h : Settled origin kept (Tally.of accesses) t) : Settled origin kept (Tally.of (accesses ++ [.close])) t := by
  rw [Tally.of_concat]
  exact h

/-- The sites `done` were redirected to the block at `base`. -/
def Redirecting (origin : Target) (build : Build) (handle : Handle) (bases : List UInt32) (base : UInt32)
    (done : List (SiteLayout × Snapshot)) : Journal (Faulty World) → Prop :=
  Stands handle { block? := some base } (origin.Installed build base (SitesOf done) (bases ++ [base]))

/-- Then the last of the sites `tried` could not be redirected. -/
def Breaking (origin : Target) (build : Build) (handle : Handle) (bases : List UInt32) (base : UInt32)
    (tried : List (SiteLayout × Snapshot)) (s : Journal (Faulty World)) : Prop :=
  ∃ done pair, tried = done ++ [pair] ∧
    Stands handle { block? := some base, jumps := [pair.2.code.base] }
      (origin.Ledger build (SitesOf done) (bases ++ [base])) s

private theorem ensures_redirect_tallied (hbuild : build ∈ Build.known) (done : List (SiteLayout × Snapshot))
    {pair : SiteLayout × Snapshot} (hpair : pair ∈ Head.pairs (build.snapshots origin.moduleBase)) :
    Attempt.Ensures (Redirecting origin build handle bases base done)
      ((Journal.platform processes).write handle pair.2.code.base (redirect pair.2.code.base
        ((Head.placed (build.snapshots origin.moduleBase) base).wrapperAddress pair.1)).bytes)
      (fun _ => Redirecting origin build handle bases base (done ++ [pair]))
      (Breaking origin build handle bases base (done ++ [pair])) := by
  have hlength : (redirect pair.2.code.base
      ((Head.placed (build.snapshots origin.moduleBase) base).wrapperAddress pair.1)).bytes.length = 5 := by
    rw [bytes_redirect]
    rfl
  refine (ensures_write_tallied (fun t ht hok => ht.redirect hbuild hpair hok) fun _ _ ht => ht.of_unmoved).ends_mono
    (fun _ w hw => ⟨hw.1, hw.2.ledger.congr fun site => sitesOf_concat.symm, hw.2.holds⟩)
    fun w hw => ⟨done, pair, rfl, ?_, hw.2.ledger⟩
  rw [hw.1, hlength]
  rfl

/-- A site that could not be redirected is put back as well. If that fails, the block is stranded. -/
private theorem ensures_unwound (hbuild : build ∈ Build.known)
    (hplaced : ∀ s ∈ build.snapshots origin.moduleBase, s.code.isPlaced = true)
    {done rest : List (SiteLayout × Snapshot)} {pair : SiteLayout × Snapshot}
    (hpairs : done ++ pair :: rest = Head.pairs (build.snapshots origin.moduleBase)) :
    Action.Ensures (Breaking origin build handle bases base (done ++ [pair]))
      ((Journal.platform processes).rollback handle ((done ++ [pair]).map (·.2)) base)
      fun _ s => Settled origin bases (Tally.of s.accesses) (s.world.world.target handle.slot) := by
  have hall : (done ++ [pair]).map (·.2) <+: build.snapshots origin.moduleBase := by
    rw [← (sites_zip build origin.moduleBase 0).1, ← Head.pairs, ← hpairs]
    exact List.IsPrefix.map _ ⟨rest, List.append_assoc ..⟩
  have hsnapshots : (done ++ [pair]).map (·.2) ⊆ build.snapshots origin.moduleBase := hall.subset
  have hnodup : ((done ++ [pair]).map (·.2)).Nodup := (build.nodup_snapshots _).sublist hall.sublist
  have hsites : ∀ site, SitesOf done site → ∃ s ∈ (done ++ [pair]).map (·.2), s.site = site := by
    rintro site ⟨one, hone, rfl⟩
    exact ⟨one.2, List.mem_map_of_mem (List.mem_append_left _ hone), rfl⟩
  have hrollback := @ensures_rollback_tallied origin build handle ⟨some base, [pair.2.code.base], [], []⟩ (SitesOf done)
    bases base _ hbuild hsnapshots hnodup (fun s hs => hplaced s (hsnapshots hs)) hsites
  refine hrollback.mono ?_ fun complete s hs => ?_
  · rintro s ⟨done', pair', htried, hstands⟩
    obtain ⟨rfl, hpair⟩ := List.append_inj' htried rfl
    obtain rfl := List.head_eq_of_cons_eq hpair
    exact hstands
  · cases complete with
    | true =>
      rcases hs with ⟨htally, hledger⟩ | ⟨htally, hledger⟩
      · rw [htally]
        exact .of_ledger (List.append_nil _) hledger
      · rw [htally]
        exact .of_ledger rfl hledger
    | false =>
      obtain ⟨lost, hlost, hsub, htally, hledger⟩ := hs
      rw [htally]
      have hsite : ∀ s ∈ lost, s ∈ build.snapshots origin.moduleBase := fun s hs => hsnapshots (hsub hs)
      have hpair : pair.2 ∈ build.snapshots origin.moduleBase :=
        hsnapshots (List.mem_map_of_mem (List.mem_append_right _ (List.mem_singleton_self _)))
      by_cases hstuck : pair.2 ∈ lost
      · have hstranded : Tally.stranded? ⟨some base, [pair.2.code.base], lost.map (·.code.base), []⟩ = some base :=
          Tally.stranded?_of_mem (List.mem_singleton_self _) (List.mem_map_of_mem hstuck)
        refine .of_ledger ?_ hledger
        rw [List.nil_append, Tally.left, hstranded]
        rfl
      · -- some site stays redirected then
        obtain ⟨s', hs'⟩ := List.exists_mem_of_ne_nil lost hlost
        obtain ⟨one, hone, rfl⟩ := List.mem_map.1 (hsub hs')
        have hdone : one ∈ done := by
          refine (List.mem_append.1 hone).resolve_right fun hlast => hstuck ?_
          rwa [← List.mem_singleton.1 hlast]
        have hnone : Tally.stranded? ⟨some base, [pair.2.code.base], lost.map (·.code.base), []⟩ = none := by
          refine Tally.stranded?_eq_none fun address hjump hcode => ?_
          rw [List.mem_singleton.1 hjump] at hcode
          obtain ⟨s', hs', hsame⟩ := List.mem_map.1 hcode
          exact hstuck (Build.eq_of_base hbuild hpair (hsite s' hs') hsame.symm ▸ hs')
        refine .of_ledger_one ?_ hledger one.2.site ⟨⟨one, hdone, rfl⟩, one.2, hs', rfl⟩
        rw [List.nil_append, Tally.left, hnone]
        rfl

/-- A session that begins has one more block. -/
theorem ensures_attach_tallied (hbuild : build ∈ Build.known)
    (hplaced : ∀ s ∈ build.snapshots origin.moduleBase, s.code.isPlaced = true) (handle : Handle)
    (bases : List UInt32) :
    Attempt.Ensures (Stands handle {} (origin.Ledger build (fun _ => False) bases))
      ((Journal.platform processes).attach ⟨handle, build, origin.moduleBase, build.snapshots origin.moduleBase⟩)
      (fun session s => ∃ base,
        session = .start ⟨handle, build, origin.moduleBase, build.snapshots origin.moduleBase⟩ base ∧
        Stands handle { block? := some base } (origin.Ledger build (fun _ => True) (bases ++ [base])) s)
      fun s => Settled origin bases (Tally.of s.accesses) (s.world.world.target handle.slot) := by
  let snapshots := build.snapshots origin.moduleBase
  let settled (s : Journal (Faulty World)) : Prop :=
    Settled origin bases (Tally.of s.accesses) (s.world.world.target handle.slot)
  let found (base : UInt32) : Journal (Faulty World) → Prop :=
    Stands handle { block? := some base } (origin.Ledger build (fun _ => False) (bases ++ [base]))
  have hsettled : ∀ {tally : Tally} {s : Journal (Faulty World)} {left : List UInt32}, bases ++ tally.left = left →
      Stands handle tally (origin.Ledger build (fun _ => False) left) s → settled s := by
    rintro _ s _ hleft ⟨rfl, hledger⟩
    exact .of_ledger hleft hledger
  have hsize : (Head.build snapshots).code.size ≤ Target.pageSize := by
    rw [size_build]
    decide
  have hevery : ∀ site, SitesOf (Head.pairs snapshots) site ↔ True := fun site =>
    iff_true_intro (sitesOf_pairs build origin.moduleBase site)
  have hallocate : Attempt.Ensures (Stands handle {} (origin.Ledger build (fun _ => False) bases))
      ((Journal.platform processes).allocate handle (Head.build snapshots).code.size) found settled :=
    (ensures_allocate_tallied (fun t ht base hok => ht.allocate hsize hok) fun _ _ ht => ht.of_unmoved).failed_mono
      fun _ hw => hsettled (List.append_nil _) hw
  have hfill : ∀ base, Attempt.Ensures (found base)
      ((Journal.platform processes).write handle base (Head.placed snapshots base).code.bytes)
      (fun _ => Redirecting origin build handle bases base []) (found base) := by
    intro base
    have hlength : (Head.placed snapshots base).code.bytes.length = 162 := size_placed build origin.moduleBase base
    refine (ensures_write_tallied (fun t ht hok => ht.fill (List.mem_append_right _ (List.mem_singleton_self _)) hok)
      fun _ _ ht => ht.of_unmoved).ends_mono
      (fun _ w hw => ⟨hw.1, hw.2.ledger.congr fun site => iff_of_false id not_sitesOf_nil, hw.2.holds⟩)
      fun w hw => ⟨?_, hw.2⟩
    rw [hw.1, hlength]
    rfl
  have hunfill : ∀ base, Attempt.Ensures (found base) ((Journal.platform processes).free handle base)
      (fun _ => settled) settled := by
    exact fun base => (ensures_free_tallied (fun t ht hok => ht.free hok) fun _ _ ht => ht.of_unmoved).ends_mono
      (fun _ _ hw => hsettled (List.append_nil _) hw) fun _ hw => hsettled rfl hw
  have hclose : Action.Ensures settled ((Journal.platform processes).close handle) fun _ => settled :=
    @ensures_close_kept handle (fun accesses t => Settled origin bases (Tally.of accesses) t) fun _ _ => Settled.close
  refine (Platform.ensures_attach found found (Redirecting origin build handle bases)
    (Breaking origin build handle bases) hallocate hfill (fun _ _ _ hw => hw) hunfill
    (fun base done pair rest hpairs => ensures_redirect_tallied hbuild done (Head.mem_pairs hpairs))
    (fun base done pair rest hpairs hunplaced => ?_)
    (fun base done pair rest hpairs => ensures_unwound hbuild hplaced hpairs) hclose).post_mono ?_
  · rw [hplaced _ (Head.mem_of_pairs hpairs)] at hunplaced
    cases hunplaced
  · rintro session s ⟨base, hsession, htally, hinstalled⟩
    exact ⟨base, hsession, htally, hinstalled.ledger.congr hevery⟩

end Attaching

/-! ### Restoring -/

section Restoring

variable {origins : List Target} {origin : Target} {build : Build} {start : World} {kept : List UInt32} {head : UInt32}
  {accesses : List Access} {t : Target}

/-- Nothing was done but looking at processes. -/
def Looked (start : World) (s : Journal (Faulty World)) : Prop := Tally.of s.accesses = {} ∧ s.world.world = start

theorem quiet_looked (start : World) :
    (Journal.platform processes).Quiet start.sight (Looked start) (Looked start) :=
  Journal.quiet_tallied (World.quiet start).faulty {}

/-- The block at `head` was released and all sites were put back, or else some access has failed and the block is still
there. -/
def Restored (origin : Target) (build : Build) (kept : List UInt32) (head : UInt32) (accesses : List Access)
    (t : Target) : Prop :=
  (Tally.of accesses = {} ∧ origin.Ledger build (fun _ => False) kept t) ∨
    (∃ access ∈ accesses, access.succeeds = false) ∧ Settled origin kept (Tally.of accesses) t ∧
      ∃ changed, origin.Ledger build changed (kept ++ [head]) t

namespace Restored

theorem settled (h : Restored origin build kept head accesses t) : Settled origin kept (Tally.of accesses) t := by
  rcases h with ⟨htally, hledger⟩ | ⟨-, hsettled, -⟩
  · rw [htally]
    exact .of_ledger (List.append_nil _) hledger
  · exact hsettled

private theorem close (h : Restored origin build kept head accesses t) :
    Restored origin build kept head (accesses ++ [.close]) t := by
  rcases h with ⟨htally, hledger⟩ | ⟨⟨access, haccess, hfails⟩, hsettled, hledger⟩
  · refine .inl ⟨?_, hledger⟩
    rw [Tally.of_concat, htally]
    rfl
  · exact .inr ⟨⟨access, List.mem_append_left _ haccess, hfails⟩, hsettled.close, hledger⟩

end Restored

theorem ensures_restore_tallied {session : Session Handle} (hgenuine : session.Genuine origins start)
    (hplaced : ∀ snapshot ∈ session.snapshots, snapshot.code.isPlaced = true)
    (hledger : (beginning origins session.process.slot).Ledger session.build (fun _ => True) (kept ++ [session.head])
      (start.target session.process.slot)) :
    Action.Ensures (Looked start) ((Journal.platform processes).restore session) fun _ s =>
      Restored (beginning origins session.process.slot) session.build kept session.head s.accesses
        (s.world.world.target session.process.slot) := by
  let restored (s : Journal (Faulty World)) : Prop :=
    Restored (beginning origins session.process.slot) session.build kept session.head s.accesses
      (s.world.world.target session.process.slot)
  have hexited : Action.Ensures (Looked start) ((Journal.platform processes).hasExited session.process)
      fun exited s => .hasExited exited ∈ s.accesses ∧ Looked start s := fun s hs =>
    ⟨List.mem_append_right _ (List.mem_singleton_self _),
      (quiet_looked start).ensures_hasExited (fun _ hs => hs) session.process s hs⟩
  have hrollback : Action.Ensures (Looked start)
      ((Journal.platform processes).rollback session.process session.snapshots session.head) fun _ => restored := by
    rw [hgenuine.snapshots] at hplaced ⊢
    refine (ensures_rollback_tallied hgenuine.known (List.Subset.refl _) (Build.nodup_snapshots ..) hplaced
      fun site _ => ⟨_, List.mem_map_of_mem site.mem_all, rfl⟩).mono
      (fun s hs => ⟨hs.1, by rw [hs.2]; exact hledger⟩) fun complete s hs => ?_
    cases complete with
    | true =>
      rcases hs with hs | ⟨htally, hledger⟩
      · exact .inl hs
      · refine .inr ⟨Tally.exists_fails (.inr ?_), ?_, _, hledger⟩
        · rw [htally]
          exact List.cons_ne_nil session.head []
        · rw [htally]
          exact .of_ledger rfl hledger
    | false =>
      obtain ⟨lost, hlost, -, htally, hledger⟩ := hs
      obtain ⟨s', hs'⟩ := List.exists_mem_of_ne_nil lost hlost
      refine .inr ⟨Tally.exists_fails (.inl ?_), ?_, _, hledger⟩
      · rw [htally]
        exact List.map_eq_nil_iff.not.2 hlost
      · rw [htally]
        exact .of_ledger_one rfl hledger s'.site ⟨trivial, s', hs', rfl⟩
  have hclose : Action.Ensures restored ((Journal.platform processes).close session.process) fun _ => restored :=
    ensures_close_kept fun _ _ => Restored.close
  unfold Platform.restore
  refine Action.Ensures.bind hexited fun exited => ?_
  cases exited with
  | true =>
    refine Action.Ensures.bind Action.Ensures.report fun _ => hclose.mono ?_ fun _ _ hs => hs
    rintro s ⟨hfails, htally, hworld⟩
    refine .inr ⟨⟨_, hfails, rfl⟩, ?_, _, hworld ▸ hledger⟩
    rw [htally, hworld]
    exact .of_ledger_one rfl hledger .game trivial
  | false =>
    refine Action.Ensures.bind (hrollback.mono (fun _ hs => hs.2) fun _ _ hs => hs) fun complete => ?_
    cases complete with
    | true => exact Action.Ensures.bind Action.Ensures.report fun _ => hclose
    | false => exact Action.Ensures.bind Action.Ensures.report fun _ => hclose

end Restoring

end InMemory

end LoadRemover
