import Mathlib.Data.List.Nodup
import LoadRemover.Proofs.Unwinding

/-!
# After an attempt that failed

What can be relied upon when attaching has failed (`Platform.Shows.failed_attach_unwinds`) is read off the accesses of
the attempt, whose forms are known (`Unwound`): an access that writes goes to the block or to a site, and which of
them it serves shows in the number of its bytes. So it is never taken for another (`Broken.write_cases`).
-/

namespace LoadRemover

open X86

variable {σ π : Type}

/-! ### Accesses and sites -/

/-- The access writes to the address. -/
def Access.WritesTo (access : Access) (a : UInt32) : Prop :=
  ∃ address bytes result, access = .write address bytes result ∧ Within address bytes.length a

namespace Snapshot

/-- The accesses contain one that redirects the site to some wrapper. -/
def RedirectedIn (s : Snapshot) (accesses : List Access) (result : Except Failure Unit) : Prop :=
  ∃ wrapper, .write s.code.base (redirect s.code.base wrapper).bytes result ∈ accesses

/-- The accesses contain one that puts the site's own code back. -/
def PutBackIn (s : Snapshot) (accesses : List Access) (result : Except Failure Unit) : Prop :=
  .write s.code.base s.code.bytes result ∈ accesses

instance (s : Snapshot) (accesses : List Access) (result : Except Failure Unit) :
    Decidable (s.PutBackIn accesses result) := inferInstanceAs (Decidable (_ ∈ _))

end Snapshot

/-! The accesses of an attempt in which a site could not be redirected. -/

namespace Broken

variable {snapshots : List Snapshot} {before : Image} (broken : Broken snapshots before)
include broken

private theorem mem_snapshots {one : SiteLayout × Snapshot} (h : one ∈ broken.done ++ [broken.pair]) :
    one.2 ∈ snapshots :=
  Head.subset_of_pairs broken.pairs (List.mem_map_of_mem h)

private theorem undo_mem_snapshots {one : Snapshot × Except Failure Unit} (h : one ∈ broken.undo) :
    one.1 ∈ snapshots := by
  have hone : one.1 ∈ broken.undo.map (·.1) := List.mem_map_of_mem h
  rw [broken.undo_sites] at hone
  obtain ⟨pair, hpair, hsame⟩ := List.mem_map.1 hone
  exact hsame ▸ broken.mem_snapshots hpair

private theorem mem_cases {access : Access} (h : access ∈ broken.accesses) :
    access = .toAllocate snapshots (.ok broken.base) ∨
    access = .toFill snapshots broken.base (.ok ()) ∨
    (∃ pair ∈ broken.done, access = .toRedirect snapshots broken.base pair (.ok ())) ∨
    access = .toRedirect snapshots broken.base broken.pair (.error broken.failure) ∨
    ∃ one ∈ broken.undo, access = .toPutBack one := by
  unfold accesses breaking redirecting at h
  simpa only [List.mem_append, List.mem_cons, List.mem_map, List.not_mem_nil, or_false, or_assoc, eq_comm] using h

/-- What is written is the block, the jumps or the sites' own code. -/
private theorem write_cases {address : UInt32} {bytes : Bytes} {result : Except Failure Unit}
    (h : .write address bytes result ∈ broken.accesses) :
    (address = broken.base ∧ bytes = (Head.placed snapshots broken.base).code.bytes) ∨
    (∃ pair ∈ broken.done ++ [broken.pair], address = pair.2.code.base ∧ bytes.length = 5 ∧
      (∀ failure, result = .error failure → pair = broken.pair)) ∨
    ∃ one ∈ broken.undo, address = one.1.code.base ∧ bytes = one.1.code.bytes ∧ result = one.2 := by
  rcases broken.mem_cases h with h | h | ⟨pair, hpair, h⟩ | h | ⟨one, hone, h⟩ <;> cases h
  · exact .inl ⟨rfl, rfl⟩
  · exact .inr (.inl ⟨pair, List.mem_append_left _ hpair, rfl, length_redirect _ _, nofun⟩)
  · exact .inr (.inl ⟨broken.pair, List.mem_append_right _ (List.mem_singleton_self _), rfl, length_redirect _ _,
      fun _ _ => rfl⟩)
  · exact .inr (.inr ⟨one, hone, rfl, rfl, rfl⟩)

private theorem eq_base_of_allocate {size : Nat} {base : UInt32} (h : .allocate size (.ok base) ∈ broken.accesses) :
    base = broken.base := by
  rcases broken.mem_cases h with h | h | ⟨pair, hpair, h⟩ | h | ⟨one, hone, h⟩ <;> cases h
  rfl

private theorem free_not_mem {base : UInt32} {result : Except Failure Unit} : .free base result ∉ broken.accesses := by
  intro h
  rcases broken.mem_cases h with h | h | ⟨pair, hpair, h⟩ | h | ⟨one, hone, h⟩ <;> cases h

private theorem allocate_mem : .allocate (Head.build snapshots).code.size (.ok broken.base) ∈ broken.accesses :=
  List.mem_append_left _ (List.mem_append_left _ (List.mem_cons_self ..))

private theorem putBackIn_of_undo {s : Snapshot} {result : Except Failure Unit} (h : (s, result) ∈ broken.undo) :
    s.PutBackIn broken.accesses result :=
  List.mem_append_right _ (List.mem_map_of_mem h)

end Broken

namespace Unwound

variable {snapshots : List Snapshot} {before after : Image} {patching : List Access}
  (h : Unwound snapshots before after patching)
include h

/-- If every site that was to be put back was put back, all is as it was, but for a block that could not be released. -/
private theorem left_of_putBack (hall : ∀ s ∈ snapshots, ∀ failure, ¬ s.PutBackIn patching (.error failure)) :
    before.Keeps after ∧
      (∀ size base, .allocate size (.ok base) ∈ patching → ∃ released, .free base released ∈ patching ∧
        (released = .ok () → after = before)) ∧
      ((∀ size base, .allocate size (.ok base) ∉ patching) → after = before) := by
  cases h with
  | unallocated failure h =>
    subst h
    refine ⟨.refl _, fun size base hmem => ?_, fun _ => rfl⟩
    cases List.mem_singleton.1 hmem
  | unfilled base fill released hfill h =>
    refine ⟨h.1, fun size base' hmem => ⟨released, List.mem_append_right _ ?_, h.2 ()⟩, fun hnone => ?_⟩
    · rcases List.mem_append.1 hmem with hmem | hmem
      · rcases List.mem_cons.1 hmem with hmem | hmem
        · cases hmem
          exact List.mem_singleton_self _
        · obtain ⟨failure, heq⟩ := hfill _ hmem
          cases heq
      · cases List.mem_singleton.1 hmem
    · exact absurd (List.mem_cons_self ..) (hnone _ base)
  | putBack broken released _ h =>
    refine ⟨h.1, fun size base hmem => ⟨released, List.mem_append_right _ ?_, h.2 ()⟩, fun hnone => ?_⟩
    · rcases List.mem_append.1 hmem with hmem | hmem
      · rw [broken.eq_base_of_allocate hmem]
        exact List.mem_singleton_self _
      · cases List.mem_singleton.1 hmem
    · exact absurd (List.mem_append_left _ broken.allocate_mem) (hnone _ broken.base)
  | kept broken hsome _ =>
    obtain ⟨one, hone, hfailed⟩ := hsome
    obtain ⟨failure, heq⟩ := exists_error_of_isOk hfailed
    rw [heq] at hone
    exact absurd (broken.putBackIn_of_undo hone) (hall _ (broken.undo_mem_snapshots hone) failure)

end Unwound

section Sites

variable {seen : π → Image} {candidate : Candidate π} (hverified : candidate.Verified (Image.sight seen))
include hverified

private theorem Candidate.Verified.apart {s t : Snapshot} (hs : s ∈ candidate.snapshots) (ht : t ∈ candidate.snapshots)
    (hne : s ≠ t) : Apart s.code.base 6 t.code.base 6 := by
  rw [hverified.snapshots] at hs ht
  obtain ⟨site, -, rfl⟩ := List.mem_map.1 hs
  obtain ⟨site', -, rfl⟩ := List.mem_map.1 ht
  exact Build.apart_of_ne hverified.known candidate.moduleBase fun hsame => hne (by rw [hsame])

private theorem Candidate.Verified.eq_of_base {s t : Snapshot} (hs : s ∈ candidate.snapshots)
    (ht : t ∈ candidate.snapshots) (hbase : s.code.base = t.code.base) : s = t := by
  by_contra hne
  have hin : Within s.code.base 6 s.code.base := by simp [Within]
  exact hverified.apart hs ht hne s.code.base hin (hbase ▸ hin)

private theorem Candidate.Verified.length_placed (base : UInt32) :
    (Head.placed candidate.snapshots base).code.bytes.length = 162 := by
  rw [hverified.snapshots]
  exact size_placed candidate.build candidate.moduleBase base

private theorem Candidate.Verified.nodup : candidate.snapshots.Nodup := by
  rw [hverified.snapshots]
  have hsites : Site.all.Nodup := by decide
  exact List.Nodup.of_map (fun s : Snapshot => s.site) hsites

private theorem Candidate.Verified.pairs_sites : (Head.pairs candidate.snapshots).map (·.2) = candidate.snapshots := by
  rw [hverified.snapshots]
  exact (sites_zip candidate.build candidate.moduleBase 0).1

namespace Broken

variable (broken : Broken candidate.snapshots (seen candidate.process))
include broken

private theorem undo_of_putBackIn {s : Snapshot} {result : Except Failure Unit} (hs : s ∈ candidate.snapshots)
    (h : s.PutBackIn broken.accesses result) : (s, result) ∈ broken.undo := by
  have hlength := (hverified.holds s hs).2.1
  rcases broken.write_cases h with ⟨-, hbytes⟩ | ⟨pair, -, -, hbytes, -⟩ | ⟨one, hone, hbase, -, rfl⟩
  · rw [hbytes, hverified.length_placed] at hlength
    cases hlength
  · rw [hbytes] at hlength
    cases hlength
  · rw [hverified.eq_of_base hs (broken.undo_mem_snapshots hone) hbase]
    exact hone

private theorem touched_of_redirectedIn {s : Snapshot} {result : Except Failure Unit} (hs : s ∈ candidate.snapshots)
    (h : s.RedirectedIn broken.accesses result) :
    s ∈ broken.undo.map (·.1) ∧ ∀ failure, result = .error failure → s = broken.pair.2 := by
  obtain ⟨wrapper, h⟩ := h
  have hlength := length_redirect s.code.base wrapper
  rcases broken.write_cases h with ⟨-, hbytes⟩ | ⟨pair, hpair, hbase, -, hlast⟩ | ⟨one, hone, -, hbytes, -⟩
  · rw [hbytes, hverified.length_placed] at hlength
    cases hlength
  · have hsame := hverified.eq_of_base hs (broken.mem_snapshots hpair) hbase
    refine ⟨?_, fun failure hfailure => hsame.trans (congrArg Prod.snd (hlast failure hfailure))⟩
    rw [broken.undo_sites, hsame]
    exact List.mem_map_of_mem hpair
  · rw [hbytes, (hverified.holds _ (broken.undo_mem_snapshots hone)).2.1] at hlength
    cases hlength

/-- What is written goes to the block or to the sites that were to be put back. -/
private theorem place_of_writesTo {access : Access} {a : UInt32} (haccess : access ∈ broken.accesses)
    (h : access.WritesTo a) :
    Within broken.base broken.n a ∨ AtSites (broken.undo.map (·.1)) a := by
  obtain ⟨address, bytes, result, rfl, hin⟩ := h
  rcases broken.write_cases haccess with ⟨rfl, rfl⟩ | ⟨pair, hpair, rfl, hbytes, -⟩ | ⟨one, hone, rfl, rfl, -⟩
  · refine .inl (Nat.lt_of_lt_of_le hin (Nat.le_trans (Nat.le_of_eq ?_) broken.room.size))
    rw [hverified.length_placed, hverified.snapshots]
    exact (size_build candidate.build candidate.moduleBase).symm
  · refine .inr ⟨pair.2, ?_, Nat.lt_of_lt_of_le hin (by omega)⟩
    rw [broken.undo_sites]
    exact List.mem_map_of_mem hpair
  · refine .inr ⟨one.1, List.mem_map_of_mem hone, ?_⟩
    rwa [(hverified.holds _ (broken.undo_mem_snapshots hone)).2.1] at hin

end Broken

namespace Unwound

variable {after : Image} {patching : List Access}
  (h : Unwound candidate.snapshots (seen candidate.process) after patching)
include h

/-- Whatever is written that is not a block is written for a site that could not be redirected in the end. -/
private theorem broken_of_write {address : UInt32} {bytes : Bytes} {result : Except Failure Unit}
    (hwrite : .write address bytes result ∈ patching) (hlength : bytes.length ≠ 162) :
    ∃ broken : Broken candidate.snapshots (seen candidate.process),
      (∀ {address bytes result}, .write address bytes result ∈ patching →
        .write address bytes result ∈ broken.accesses) ∧
      ((∀ one ∈ broken.undo, one.2.isOk = true) ∨
        patching = broken.accesses ∧
          (seen candidate.process).Patched broken.base broken.n (AtSites (lost broken.undo)) after) := by
  cases h with
  | unallocated failure _ => cases List.mem_singleton.1 hwrite
  | unfilled base fill released hfill _ =>
    rcases List.mem_append.1 hwrite with hwrite | hwrite
    · rcases List.mem_cons.1 hwrite with hwrite | hwrite
      · cases hwrite
      · obtain ⟨failure, heq⟩ := hfill _ hwrite
        cases heq
        exact absurd (hverified.length_placed _) hlength
    · cases List.mem_singleton.1 hwrite
  | putBack broken released hall _ =>
    refine ⟨broken, fun hmem => (List.mem_append.1 hmem).resolve_right fun hfree => ?_, .inl hall⟩
    cases List.mem_singleton.1 hfree
  | kept broken hsome hpatched => exact ⟨broken, id, .inr ⟨rfl, hpatched⟩⟩

/-- Behind the site that could not be redirected nothing is written. -/
private theorem spares_later {done rest : List Snapshot} {s later : Snapshot} {failure : Failure}
    (hsnapshots : done ++ s :: rest = candidate.snapshots) (hbroken : s.RedirectedIn patching (.error failure))
    (hlater : later ∈ rest) {a : UInt32} (ha : Within later.code.base 6 a) :
    ∀ access ∈ patching, ¬ access.WritesTo a := by
  rintro access haccess hwrites
  obtain ⟨wrapper, hredirect⟩ := hbroken
  obtain ⟨broken, hmem, -⟩ := h.broken_of_write hverified hredirect (by rw [length_redirect]; decide)
  have hs : s ∈ candidate.snapshots := hsnapshots ▸ List.mem_append_right _ (List.mem_cons_self ..)
  have hlater' : later ∈ candidate.snapshots :=
    hsnapshots ▸ List.mem_append_right _ (List.mem_cons_of_mem _ hlater)
  obtain ⟨-, hlast⟩ := broken.touched_of_redirectedIn hverified hs ⟨wrapper, hmem hredirect⟩
  obtain rfl := hlast failure rfl
  have hsplit : done ++ broken.pair.2 :: rest = broken.done.map (·.2) ++ broken.pair.2 :: broken.rest.map (·.2) := by
    rw [hsnapshots, ← List.map_cons, ← List.map_append, broken.pairs, hverified.pairs_sites]
  -- no site occurs twice, so it has one place among the others
  have hnodup := hverified.nodup
  rw [← hsnapshots] at hnodup
  have hfirst := (List.nodup_cons.1 (List.nodup_middle.1 hnodup)).1
  obtain ⟨hdone, -, -⟩ := (List.append_cons_inj_of_notMem (fun hin => hfirst (List.mem_append_left _ hin))
    fun hin => hfirst (List.mem_append_right _ hin)).1 hsplit
  have hnot : later ∉ broken.undo.map (·.1) := by
    rw [broken.undo_sites, List.map_append, ← hdone, List.map_singleton]
    rw [List.append_cons] at hnodup
    exact fun hin => List.disjoint_of_nodup_append hnodup hin hlater
  obtain ⟨address, bytes, result, rfl, hin⟩ := hwrites
  rcases broken.place_of_writesTo hverified (hmem haccess) ⟨address, bytes, result, rfl, hin⟩ with
    hblock | ⟨t, ht, hsite⟩
  · have hnone := broken.room.free.memory a hblock
    obtain ⟨i, hi, -, rfl⟩ := ha.exists
    have hsome := Image.isSome_read? (hverified.holds later hlater').2.2 hi
    rw [hnone] at hsome
    cases hsome
  · obtain ⟨one, hone, rfl⟩ := List.mem_map.1 ht
    exact hverified.apart (broken.undo_mem_snapshots hone) hlater' (fun heq => hnot (heq ▸ ht)) a hsite ha

/-- If some site could not be put back, the block stays, and so does the own code of all other sites. -/
private theorem kept_of_not_putBack {s : Snapshot} {failure : Failure} (hs : s ∈ candidate.snapshots)
    (hfailed : s.PutBackIn patching (.error failure)) :
    (∃ size base n, .allocate size (.ok base) ∈ patching ∧ after.blocks base = some n ∧
      ∀ released, .free base released ∉ patching) ∧
    (∀ other ∈ candidate.snapshots, (∀ failure, ¬ other.PutBackIn patching (.error failure)) →
      after.read? other.code.base 6 = (seen candidate.process).read? other.code.base 6) ∧
    ∀ other ∈ candidate.snapshots, ∀ result, other.RedirectedIn patching result →
      ∃ result, other.PutBackIn patching result := by
  have hlength := (hverified.holds s hs).2.1
  obtain ⟨broken, hmem, hall | ⟨rfl, hpatched⟩⟩ := h.broken_of_write hverified hfailed (by rw [hlength]; decide)
  · cases hall _ (broken.undo_of_putBackIn hverified hs (hmem hfailed))
  refine ⟨⟨_, broken.base, broken.n, broken.allocate_mem, ?_, fun _ => broken.free_not_mem⟩,
    fun other hother hnot => ?_, fun other hother result hredirect => ?_⟩
  · rw [hpatched.blocks, Function.update_self]
  · rw [(hverified.holds other hother).2.2]
    refine hpatched.read?_eq broken.room.free (hverified.holds other hother).2.2 ?_
    rintro a ha ⟨t, ht, hin⟩
    obtain ⟨failure, hlost⟩ := mem_lost ht
    have hne : other ≠ t := by
      rintro rfl
      exact hnot failure (broken.putBackIn_of_undo hlost)
    exact hverified.apart hother (broken.undo_mem_snapshots hlost) hne a ha hin
  · obtain ⟨htouched, -⟩ := broken.touched_of_redirectedIn hverified hother hredirect
    obtain ⟨one, hone, rfl⟩ := List.mem_map.1 htouched
    exact ⟨one.2, broken.putBackIn_of_undo hone⟩

end Unwound

end Sites

private theorem Access.mem_of_closed {patching : List Access} {access : Access} (h : access ∈ patching ++ [.close])
    (hne : access ≠ .close) : access ∈ patching :=
  (List.mem_append.1 h).resolve_right fun hlast => hne (List.mem_singleton.1 hlast)

/-- **An attempt to attach that fails is undone,** whichever accesses fail, and however much of a failed write was
stored.

* Behind the site whose redirection failed no site was written to.
* If every site that was to be put back was put back, all sites hold what they held before. A block that was allocated
  was to be released, and if it could be, or if there was none, the process is as before. In any case it is found again
  and can be patched again, as long as no access fails.
* If some site could not be put back, the block is still allocated. Every site holds what it held before, but for those
  that could not be put back, and each site that was redirected, or was to be, was to be put back. -/
theorem Platform.Shows.failed_attach_unwinds {platform : Platform σ π} {images : σ → π → Image}
    (h : platform.Shows images) {candidate : Candidate π} {s : Traced σ}
    (hverified : candidate.Verified (Image.sight (images s.world)))
    (hfailed : ((platform.attach candidate).outcome s).1.isOk = false) :
    let accesses := platform.accesses (fun platform => (platform.attach candidate).outcome) s
    let before := images s.world candidate.process
    let after := images ((platform.attach candidate).outcome s).2.world candidate.process
    (∀ done site rest failure, done ++ site :: rest = candidate.snapshots →
      site.RedirectedIn accesses (.error failure) →
        ∀ later ∈ rest, ∀ a, Within later.code.base 6 a → ∀ access ∈ accesses, ¬ access.WritesTo a) ∧
    ((∀ site ∈ candidate.snapshots, ∀ failure, ¬ site.PutBackIn accesses (.error failure)) →
      (∀ site ∈ candidate.snapshots, after.read? site.code.base 6 = before.read? site.code.base 6) ∧
      (∀ size base, .allocate size (.ok base) ∈ accesses → ∃ released, .free base released ∈ accesses ∧
        (released = .ok () → after = before)) ∧
      ((∀ size base, .allocate size (.ok base) ∉ accesses) → after = before) ∧
      ∀ process (later : Traced σ), images later.world process = after → platform.Attachable process later) ∧
    ∀ site ∈ candidate.snapshots, ∀ failure, site.PutBackIn accesses (.error failure) →
      (∃ size base n, .allocate size (.ok base) ∈ accesses ∧ after.blocks base = some n ∧
        ∀ released, .free base released ∉ accesses) ∧
      (∀ other ∈ candidate.snapshots, (∀ failure, ¬ other.PutBackIn accesses (.error failure)) →
        after.read? other.code.base 6 = before.read? other.code.base 6) ∧
      ∀ other ∈ candidate.snapshots, ∀ result, other.RedirectedIn accesses result →
        ∃ result, other.PutBackIn accesses result := by
  intro accesses before after
  have herase : (platform.attach candidate).outcome s = _ :=
    (Journal.erases platform).attach candidate (Journal.start s)
  obtain ⟨patching, haccesses, hunwound⟩ : ∃ patching, accesses = patching ++ [.close] ∧
      Unwound candidate.snapshots before after patching := by
    have hattach := h.ensures_attach hverified (Journal.start s) ⟨rfl, rfl⟩
    rw [herase] at hfailed
    cases hresult : (((Journal.platform platform).attach candidate).outcome (Journal.start s)).1 with
    | ok session =>
      simp only [hresult] at hfailed
      cases hfailed
    | error failure =>
      simp only [hresult] at hattach
      obtain ⟨patching, haccesses, hunwound⟩ := hattach
      refine ⟨patching, haccesses, ?_⟩
      show Unwound _ _ (images ((platform.attach candidate).outcome s).2.world candidate.process) _
      rw [herase]
      exact hunwound
  rw [haccesses]
  refine ⟨?_, ?_, ?_⟩
  · rintro done site rest failure hsnapshots ⟨wrapper, hredirect⟩ later hlater a ha access haccess hwrites
    have hredirect' := Access.mem_of_closed hredirect nofun
    have hne : access ≠ .close := by
      rintro rfl
      obtain ⟨_, _, _, heq, -⟩ := hwrites
      cases heq
    exact hunwound.spares_later hverified hsnapshots ⟨wrapper, hredirect'⟩ hlater ha access
      (Access.mem_of_closed haccess hne) hwrites
  · intro hall
    obtain ⟨hkeeps, hreleased, hnone⟩ := hunwound.left_of_putBack fun site hsite failure hfailed =>
      hall site hsite failure (List.mem_append_left _ hfailed)
    refine ⟨fun site hsite => ?_, fun size base hmem => ?_, fun hnot => ?_, fun process later hlater => ?_⟩
    · rw [(hverified.holds site hsite).2.2]
      exact hkeeps.read? (hverified.holds site hsite).2.2
    · obtain ⟨released, hmem, hbefore⟩ := hreleased size base (Access.mem_of_closed hmem nofun)
      exact ⟨released, List.mem_append_left _ hmem, hbefore⟩
    · exact hnone fun size base hmem => hnot size base (List.mem_append_left _ hmem)
    · refine h.attachable hverified ?_
      rw [hlater]
      exact hkeeps
  · intro site hsite failure hfailed
    obtain ⟨⟨size, base, n, hmem, hblock, hnot⟩, hothers, htouched⟩ :=
      hunwound.kept_of_not_putBack hverified hsite (Access.mem_of_closed hfailed nofun)
    refine ⟨⟨size, base, n, List.mem_append_left _ hmem, hblock, fun released hfree => ?_⟩, fun other hother hall => ?_,
      fun other hother result hredirect => ?_⟩
    · exact hnot released (Access.mem_of_closed hfree nofun)
    · exact hothers other hother fun failure hlost => hall failure (List.mem_append_left _ hlost)
    · obtain ⟨wrapper, hredirect⟩ := hredirect
      obtain ⟨result, hback⟩ := htouched other hother result ⟨wrapper, Access.mem_of_closed hredirect nofun⟩
      exact ⟨result, List.mem_append_left _ hback⟩

/-! ### A process that fails as it is told -/

/-- A process and what becomes of the next accesses that change it. Each of them fails if there is a number, and a
write stores as many of its bytes then. -/
structure Fragile where
  image : Image
  fates : List (Option Nat) := []

namespace Fragile

def fate (s : Fragile) : Option Nat := s.fates.headD none

def next (s : Fragile) (image : Image) : Fragile := ⟨image, s.fates.tail⟩

def read (s : Fragile) (address : UInt32) (n : Nat) : Except Failure Bytes :=
  match s.image.read? address n with
  | some bytes => .ok bytes
  | none => .error (.reading address "unmapped")

def write (s : Fragile) (address : UInt32) (bytes : Bytes) : Except Failure Unit × Fragile :=
  match s.fate with
  | none => (.ok (), s.next (s.image.store address bytes))
  | some k => (.error (.writing address "interrupted"), s.next (s.image.store address (bytes.take k)))

/-- Where the block goes. -/
def blockAddress : UInt32 := 0x1000000

def hasRoom (s : Fragile) (size : Nat) : Bool :=
  (∀ i < size, s.image.memory (blockAddress + UInt32.ofNat i) = none) ∧ s.image.blocks blockAddress = none

def allocate (s : Fragile) (size : Nat) : Except Failure UInt32 × Fragile :=
  if s.fate.isNone && s.hasRoom size then
    (.ok blockAddress, s.next (s.image.allocate blockAddress size))
  else
    (.error (.allocating size "no memory"), s.next s.image)

def free (s : Fragile) (base : UInt32) : Except Failure Unit × Fragile :=
  match s.fate with
  | none => (.ok (), s.next (s.image.release base))
  | some _ => (.error (.freeing base "interrupted"), s.next s.image)

def platform : Platform Fragile Unit where
  processes := .onWorld fun s => (.ok [⟨7, "mc2.exe"⟩], s)
  openProcess _ := .onWorld fun s => (.ok (), s)
  close _ := return ()
  pid _ := 7
  hasExited _ := return false
  is64Bit _ := .onWorld fun s => (.ok s.image.is64Bit, s)
  moduleBase _ := .onWorld fun s => (.ok s.image.moduleBase, s)
  read _ address n := .onWorld fun s => (s.read address n, s)
  write _ address bytes := .onWorld (·.write address bytes)
  allocate _ size := .onWorld (·.allocate size)
  free _ base := .onWorld (·.free base)

private theorem quiet (seen : Unit → Image) :
    platform.Quiet (Image.sight seen) (fun s => (fun _ => s.image) = seen) fun s => (fun _ => s.image) = seen where
  processes := Attempt.Ensures.of_same fun _ => rfl
  openProcess _ := Attempt.Ensures.of_same fun _ => rfl
  close _ := Action.Ensures.pure fun _ hw => hw
  leave _ := Action.Ensures.pure fun _ hw => hw
  hasExited _ := Action.Ensures.pure fun _ hw => hw
  is64Bit _ := by
    refine Attempt.Ensures.look (fun s : Fragile => .ok s.image.is64Bit) ?_ fun _ hs => hs
    rintro s rfl is64Bit ⟨⟩
    exact ⟨rfl, rfl⟩
  moduleBase _ := by
    refine Attempt.Ensures.look (fun s : Fragile => .ok s.image.moduleBase) ?_ fun _ hs => hs
    rintro s rfl base ⟨⟩
    exact ⟨rfl, rfl⟩
  read process a n := by
    refine Attempt.Ensures.look (fun s : Fragile => s.read a n) ?_ fun _ hs => hs
    rintro s rfl bytes hread
    refine ⟨?_, rfl⟩
    unfold read at hread
    split at hread
    · rename_i hbytes
      rw [← Except.ok.inj hread]
      exact hbytes
    · cases hread

private theorem shows : platform.Shows fun s _ => s.image where
  quiet := quiet
  write process address bytes image := by
    refine Attempt.Ensures.onWorld (f := fun s : Fragile => s.write address bytes) ?_
    rintro s rfl
    unfold write
    cases s.fate with
    | none => rfl
    | some k => exact ⟨k, rfl⟩
  allocate process size image := by
    refine Attempt.Ensures.onWorld (f := fun s : Fragile => s.allocate size) ?_
    rintro s rfl
    unfold allocate
    cases hroom : s.fate.isNone && s.hasRoom size with
    | false => rfl
    | true =>
      obtain ⟨hmemory, hblocks⟩ := of_decide_eq_true (Bool.and_eq_true_iff.1 hroom).2
      refine ⟨size, Nat.le_refl _, ⟨fun a ha => ?_, hblocks⟩, rfl⟩
      obtain ⟨i, hi, -, rfl⟩ := ha.exists
      exact hmemory i hi
  free process base image := by
    refine Attempt.Ensures.onWorld (f := fun s : Fragile => s.free base) ?_
    rintro s rfl
    unfold free
    cases s.fate <;> rfl

/-- A process of the retail build. -/
def retailImage : Image where
  moduleBase := 0x400000
  memory a := (Build.retail.imageParts 0x400000).findSome? fun part => part.2[(a - (0x400000 + part.1)).toNat]?

def retailCandidate : Candidate Unit := ⟨(), Build.retail, 0x400000, Build.retail.snapshots 0x400000⟩

private theorem verified_retailCandidate : retailCandidate.Verified (Image.sight fun _ => retailImage) where
  narrow := rfl
  base := rfl
  build := by
    have hsignature : retailImage.read? (0x400000 + Build.signatureOffset) 4 =
        some (Bytes.littleEndian32 Build.retail.signature) := by decide +kernel
    exact Option.bind_eq_some_iff.2 ⟨_, hsignature, rfl⟩
  snapshots := rfl
  code := by decide +kernel

/-- The process, before accesses with these results. -/
def torn (fates : List (Option Nat)) : Traced Fragile := ⟨⟨retailImage, fates⟩, []⟩

/-- The second jump, of which three bytes are stored. -/
def tornJump : Access :=
  .write 0x403860 (redirect 0x403860 0x1000052).bytes (.error (.writing 0x403860 "interrupted"))

private theorem length_of_eq_tornJump {address : UInt32} {bytes : Bytes} {result : Except Failure Unit}
    (h : Access.write address bytes result = tornJump) : bytes.length = 5 := by
  rw [(Access.write.inj h).2.1]
  exact length_redirect _ _

/-- Three bytes of the second jump are stored. Once all is put back. Once this fails for the first site, and the block
stays, but the second site is put back. -/
theorem failed_attach_unwinds_torn :
    ((platform.attach retailCandidate).outcome (torn [none, none, none, some 3])).2.world.image = retailImage ∧
    let kept := ((platform.attach retailCandidate).outcome (torn [none, none, none, some 3, some 2])).2.world.image
    (∃ base, kept.blocks base ≠ none) ∧
      kept.read? (preamble .movie .retail 0x400000).base 6 =
        retailImage.read? (preamble .movie .retail 0x400000).base 6 := by
  have hfailed : ((platform.attach retailCandidate).outcome (torn [none, none, none, some 3])).1.isOk = false := by
    decide +kernel
  have hfailed' : ((platform.attach retailCandidate).outcome (torn [none, none, none, some 3, some 2])).1.isOk =
      false := by decide +kernel
  obtain ⟨-, hrestored, -⟩ := shows.failed_attach_unwinds verified_retailCandidate hfailed
  obtain ⟨-, -, hkept⟩ := shows.failed_attach_unwinds verified_retailCandidate hfailed'
  have hjump : ∀ access ∈ platform.accesses (fun platform => (platform.attach retailCandidate).outcome)
      (torn [none, none, none, some 3]), access.succeeds = false → access = tornJump := by decide +kernel
  have hboth : ∀ access ∈ platform.accesses (fun platform => (platform.attach retailCandidate).outcome)
      (torn [none, none, none, some 3, some 2]), access.succeeds = false → access = tornJump ∨
        access = .write 0x403B80 (preamble .game .retail 0x400000).bytes
          (.error (.writing 0x403B80 "interrupted")) := by decide +kernel
  obtain ⟨-, hreleased, -⟩ := hrestored fun site hsite failure hputBack => by
    have hlength := length_of_eq_tornJump (hjump _ hputBack rfl)
    rw [(verified_retailCandidate.holds site hsite).2.1] at hlength
    cases hlength
  obtain ⟨released, hfree, hbefore⟩ := hreleased 162 blockAddress (by decide +kernel)
  have hlost : (⟨.game, preamble .game .retail 0x400000⟩ : Snapshot).PutBackIn
      (platform.accesses (fun platform => (platform.attach retailCandidate).outcome)
        (torn [none, none, none, some 3, some 2])) (.error (.writing 0x403B80 "interrupted")) := by decide +kernel
  obtain ⟨⟨_, base, n, -, hblock, -⟩, hsites, -⟩ := hkept _ (List.mem_map_of_mem (Site.mem_all .game)) _ hlost
  refine ⟨?_, ⟨base, fun hnone => ?_⟩, ?_⟩
  · cases released with
    | ok _ => exact hbefore rfl
    | error failure => cases hjump _ hfree rfl
  · cases hblock.symm.trans hnone
  · refine hsites ⟨.movie, preamble .movie .retail 0x400000⟩ (List.mem_map_of_mem (Site.mem_all .movie))
      fun failure hputBack => ?_
    rcases hboth _ hputBack rfl with hsame | hsame
    · have hlength := length_of_eq_tornJump hsame
      cases hlength
    · have hbase := (Access.write.inj hsame).1
      exact absurd hbase (by decide +kernel)

end Fragile

end LoadRemover
