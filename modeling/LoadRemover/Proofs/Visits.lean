import LoadRemover.Proofs.Journal
import LoadRemover.Proofs.Ownership
import LoadRemover.Proofs.Shadows

/-!
# From attaching to shutting down

An engine attaches to a process, stays with it for a while and is shut down. Meanwhile anything may be poked into the
memory of the process. A `Visit` is one moment of this, and next to the world it has the same process as it would be
without the engine. The invariant is `Visit.Held`, that the one is a shadow of the other. So a shutdown in which no
access fails leaves nothing behind (`Visit.shutdown_undoes_attach`): the sites are as they were before, and everything
else is as the pokes alone would have left it.
-/

namespace LoadRemover.InMemory

/-- Access to processes in memory, with injected failures. -/
abbrev processes : Platform (Faulty World) Handle := Faulty.platform World.platform

/-- An engine that is attached to a process. -/
structure Visit where
  engine : Engine Handle
  state : Traced (Faulty World)
  /-- The process as it would be without the engine. -/
  alone : Target

namespace Visit

def target (visit : Visit) (slot : Nat) : Target := visit.state.world.world.target slot

/-- What happens while the engine is attached. -/
inductive Step (slot : Nat) : Visit → Visit → Prop
  | poll (visit : Visit) (h : (visit.engine.update processes visit.state).1.1.isAttached = true) :
      Step slot visit ⟨(visit.engine.update processes visit.state).1.1, (visit.engine.update processes visit.state).2,
        visit.alone⟩
  /-- Bytes are poked into the process. They are poked into the other one as well, if they can be. -/
  | poke (visit : Visit) (address : UInt32) (bytes : Bytes) (state : Traced (Faulty World))
      (h : (visit.target slot).poke? address bytes = some (state.world.world.target slot)) :
      Step slot visit ⟨visit.engine, state, (visit.alone.poke? address bytes).getD visit.alone⟩
  /-- Anything may happen that leaves the memory of the process as it is. -/
  | other (visit : Visit) (state : Traced (Faulty World))
      (h : (visit.target slot).SameMemory (state.world.world.target slot)) :
      Step slot visit { visit with state }

/-- The engine is attached to a process of the build, and the process is a shadow of the one without the engine. -/
def Held (origin : Target) (slot : Nat) (build : Build) (visit : Visit) : Prop :=
  ∃ session, visit.engine.session = some session ∧ session.process.slot = slot ∧
    session.snapshots = build.snapshots origin.moduleBase ∧
    origin.Shadow session.head visit.alone (visit.target slot)

variable {origin : Target} {slot : Nat} {build : Build} {visit visit' : Visit}

/-! ### Being attached -/

private theorem poll_spec {engine : Engine Handle} {session : Session Handle} (hsession : engine.session = some session)
    (s : Traced (Faulty World)) (hattached : (engine.update processes s).1.1.isAttached = true) :
    (engine.update processes s).2.world.world = s.world.world ∧
      ∃ session', (engine.update processes s).1.1.session = some session' ∧ session.SameProcess session' := by
  have hquiet := (World.quiet s.world.world).faulty
  have hupdate : Action.Ensures (fun s' : Faulty World => s'.world = s.world.world) (engine.update processes)
      fun result s' => (result.1.isAttached = true → ∃ session', result.1.session = some session' ∧
        session.SameProcess session') ∧ s'.world = s.world.world := by
    unfold Engine.update
    rw [hsession]
    refine Action.Ensures.bind (hquiet.ensures_poll (fun _ hs => hs) session) fun poll => ?_
    refine Action.Ensures.of_imp fun hsame => ?_
    cases poll.failure with
    | none => exact Action.Ensures.pure fun _ hs => ⟨fun _ => ⟨poll.session, rfl, hsame⟩, hs⟩
    | some failure =>
      refine Action.Ensures.bind Action.Ensures.report fun _ => ?_
      refine Action.Ensures.bind (hquiet.close session.process) fun _ => ?_
      exact Action.Ensures.pure fun _ hs => ⟨nofun, hs⟩
  obtain ⟨hsame, hworld⟩ := hupdate s rfl
  exact ⟨hworld, hsame hattached⟩

/-- Every step keeps hold of the process. -/
private theorem Held.step (h : Held origin slot build visit) (hstep : Step slot visit visit') :
    Held origin slot build visit' := by
  obtain ⟨session, hsession, hslot, hsnapshots, hshadow⟩ := h
  cases hstep with
  | poll hattached =>
    obtain ⟨hworld, session', hsession', hsame⟩ := poll_spec hsession visit.state hattached
    refine ⟨session', hsession', ?_, hsame.snapshots.trans hsnapshots, ?_⟩
    · rw [hsame.process]
      exact hslot
    · unfold Visit.target
      rw [hsame.head, hworld]
      exact hshadow
  | poke address bytes state hpoke => exact ⟨session, hsession, hslot, hsnapshots, hshadow.poke hpoke⟩
  | other state hsame => exact ⟨session, hsession, hslot, hsnapshots, hshadow.of_sameMemory hsame⟩

private theorem Held.run (h : Held origin slot build visit) (hrun : Relation.ReflTransGen (Step slot) visit visit') :
    Held origin slot build visit' := by
  induction hrun with
  | refl => exact h
  | tail _ hstep ih => exact ih.step hstep

end Visit

/-! ### Accesses to one process -/

section Accesses

variable {α : Type} {handle : Handle} {post : α → Target → Prop}

/-- What an access does to its process it does to the process in the world. An access that has to fail does nothing. -/
theorem ensures_onTarget {f : Target → Except Failure α × Target} (habsent : (f World.absent).2 = World.absent)
    (pre : Target → Prop) {failed : Target → Prop} (h : ∀ t, pre t → ∀ a, (f t).1 = .ok a → post a (f t).2)
    (herror : ∀ t, pre t → ∀ failure, (f t).1 = .error failure → failed (f t).2) (hrefused : ∀ t, pre t → failed t)
    (pid : UInt32) (operation : Operation) :
    Attempt.Ensures (fun s : Faulty World => pre (s.world.target handle.slot))
      (Faulty.guarded pid operation (World.platform.onTarget handle f))
      (fun a s => post a (s.world.target handle.slot)) fun s => failed (s.world.target handle.slot) := by
  have hworld : Attempt.Ensures (fun w : World => pre (w.target handle.slot)) (World.platform.onTarget handle f)
      (fun a w => post a (w.target handle.slot)) fun w => failed (w.target handle.slot) := by
    refine Attempt.Ensures.onWorld fun w hw => ?_
    have hhere := (World.target_access habsent w handle.slot handle.slot).trans (if_pos rfl)
    cases hresult : (f (w.target handle.slot)).1 with
    | error failure =>
      simp only [hhere]
      exact herror _ hw failure hresult
    | ok a =>
      simp only [hhere]
      exact h _ hw a hresult
  exact Faulty.ensures_guarded hworld (fun _ hw => hrefused _ hw) pid operation

private theorem ensures_write (pre : Target → Prop) {post : Target → Prop} {address : UInt32} {bytes : Bytes}
    (h : ∀ t, pre t → (t.write address bytes).1 = .ok () → post (t.write address bytes).2) :
    Attempt.Ensures (fun s : Faulty World => pre (s.world.target handle.slot)) (processes.write handle address bytes)
      (fun _ s => post (s.world.target handle.slot)) fun _ => True :=
  ensures_onTarget rfl pre (fun t ht _ hok => h t ht hok) (fun _ _ _ _ => trivial) (fun _ _ => trivial) handle.pid
    .write

/-- Some access is on the list as a failure, or this holds of the process. -/
def FailedOr (handle : Handle) (holds : Target → Prop) (s : Journal (Faulty World)) : Prop :=
  s.Failed ∨ holds (s.world.world.target handle.slot)

private theorem ensures_write_listed (pre : Target → Prop) {post : Target → Prop} {address : UInt32} {bytes : Bytes}
    (h : ∀ t, pre t → (t.write address bytes).1 = .ok () → post (t.write address bytes).2) :
    Attempt.Ensures (FailedOr handle pre) ((Journal.platform processes).write handle address bytes)
      (fun _ => FailedOr handle post) Journal.Failed :=
  ((Journal.failed_attempted _ _).or (Journal.ensures_listed (ensures_write pre h) fun _ => rfl)).ends_mono
    (fun _ _ hs => hs.imp id And.left) fun _ hs => hs.elim id id

private theorem ensures_free_listed (pre : Target → Prop) {post : Target → Prop} {address : UInt32}
    (h : ∀ t, pre t → (t.free address).1 = .ok () → post (t.free address).2) :
    Attempt.Ensures (FailedOr handle pre) ((Journal.platform processes).free handle address)
      (fun _ => FailedOr handle post) Journal.Failed :=
  ((Journal.failed_attempted _ _).or (Journal.ensures_listed (ensures_onTarget rfl pre (fun t ht _ hok => h t ht hok)
    (fun _ _ _ _ => trivial) (fun _ _ => trivial) handle.pid .free) fun _ => rfl)).ends_mono
    (fun _ _ hs => hs.imp id And.left) fun _ hs => hs.elim id id

private theorem ensures_close_listed (holds : Target → Prop) :
    Action.Ensures (FailedOr handle holds) ((Journal.platform processes).close handle) fun _ => FailedOr handle holds :=
  (Journal.failed_noted _ _).or (@Journal.ensures_noted _ _ (fun _ => .close) _
    (fun _ (s : Faulty World) => holds (s.world.target handle.slot))
    (fun _ _ (s : Faulty World) => holds (s.world.target handle.slot)) fun _ _ hs => hs)

end Accesses

/-! ### Attaching -/

section Session

variable {origin alone t : Target} {build : Build} {head : UInt32} {snapshot : Snapshot}

theorem Target.base_of_snapshot (hbuild : build ∈ Build.known)
    (hsnapshot : snapshot ∈ build.snapshots origin.moduleBase) :
    snapshot.code.base = origin.siteAddress snapshot.site := by
  rw [Target.mem_snapshots hsnapshot, preamble_base, Build.offset_entry hbuild]
  rfl

/-- A session that begins makes its process a shadow. -/
private theorem ensures_attach_shadow (hroom : origin.HasRoom) (htidy : origin.Tidy) (hbuild : build ∈ Build.known)
    (handle : Handle) :
    Attempt.Ensures (fun s : Faulty World => s.world.target handle.slot = origin)
      (processes.attach ⟨handle, build, origin.moduleBase, build.snapshots origin.moduleBase⟩)
      (fun session (s : Faulty World) => ∃ base,
        session = .start ⟨handle, build, origin.moduleBase, build.snapshots origin.moduleBase⟩ base ∧
        origin.Shadow base origin (s.world.target handle.slot)) fun _ => True := by
  let snapshots := build.snapshots origin.moduleBase
  have hsize : (Head.build snapshots).code.size = 162 := size_build build origin.moduleBase
  have hplaced : ∀ base, (Head.placed snapshots base).code.bytes.length = 162 := size_placed build origin.moduleBase
  refine Platform.ensures_attach
    (fun base (s : Faulty World) => origin.allocate 162 = (.ok base, s.world.target handle.slot)) (fun _ _ => True)
    (fun base _ (s : Faulty World) => origin.Shadow base origin (s.world.target handle.slot)) (fun _ _ _ => True)
    ?_ (fun base => ?_) (fun _ _ _ _ => trivial) (fun _ => .trivial) (fun base done pair rest hpairs => ?_)
    (fun _ _ _ _ _ _ _ _ => trivial) (fun _ _ _ _ _ => .trivial) .trivial
  · show Attempt.Ensures _ (processes.allocate handle (Head.build snapshots).code.size) _ _
    rw [hsize]
    refine @ensures_onTarget _ handle (fun base t => origin.allocate 162 = (.ok base, t)) (·.allocate 162) rfl
      (· = origin) (fun _ => True) ?_ (fun _ _ _ _ => trivial) (fun _ _ => trivial) handle.pid .allocate
    rintro t rfl base hok
    exact Prod.ext hok rfl
  · refine ensures_write (fun t => origin.allocate 162 = (.ok base, t)) fun t hallocate hok => ?_
    exact Target.shadow_of_filled hroom htidy (Nat.lt_of_lt_of_eq (by omega) (hplaced base).symm) hallocate hok
  · have hsnapshot := Head.mem_of_pairs hpairs
    refine ensures_write (origin.Shadow base origin) fun t hshadow hok => hshadow.write hok fun i hi => ?_
    rw [Target.base_of_snapshot hbuild hsnapshot]
    have : i < 5 := by
      rw [bytes_redirect] at hi
      exact hi
    exact ⟨pair.2.site, Nat.le_add_right _ _, by omega⟩

/-- An engine that attaches leaves its process a shadow of what it was. -/
private theorem ensures_tryAttach_shadow {w : World} {engine : Engine Handle} (hnone : engine.session = none) :
    Action.Ensures (fun s : Faulty World => s.world = w) (engine.tryAttach processes) fun engine' (s : Faulty World) =>
      ∀ session ∈ engine'.session, (w.target session.process.slot).HasRoom → (w.target session.process.slot).Tidy →
        ∃ candidate : Candidate Handle, candidate.Verified w.sight ∧ session.process = candidate.process ∧
          session.snapshots = candidate.snapshots ∧
          (w.target session.process.slot).Shadow session.head (w.target session.process.slot)
            (s.world.target session.process.slot) := by
  have hnew : ∀ session ∈ engine.session, False := by
    rw [hnone]
    nofun
  refine (World.quiet w).faulty.ensures_tryAttach (fun _ hs => hs) (fun _ _ session hs => (hnew session hs).elim)
    fun candidate hverified => ?_
  have hattach : Attempt.Ensures (fun s : Faulty World => s.world = w) (processes.attach candidate)
      (fun session s => (∃ base, session = Session.start candidate base) ∧
        ((w.target candidate.process.slot).HasRoom → (w.target candidate.process.slot).Tidy →
          (w.target candidate.process.slot).Shadow session.head (w.target candidate.process.slot)
            (s.world.target candidate.process.slot))) fun _ => True := by
    by_cases hfit : (w.target candidate.process.slot).HasRoom ∧ (w.target candidate.process.slot).Tidy
    · obtain ⟨process, build, moduleBase, snapshots⟩ := candidate
      obtain rfl : snapshots = build.snapshots moduleBase := hverified.snapshots
      obtain rfl : moduleBase = (w.target process.slot).moduleBase := hverified.base
      refine (ensures_attach_shadow hfit.1 hfit.2 hverified.known process).mono
        (fun s hs => congrArg (World.target · process.slot) hs) ?_ fun _ hs => hs
      rintro _ s ⟨base, rfl, hshadow⟩
      exact ⟨⟨base, rfl⟩, fun _ _ => hshadow⟩
    · have hsession := (Platform.confined_true processes candidate.process).ensures_attach
      exact hsession.mono (fun _ _ => trivial) (fun _ _ hs => ⟨hs.1, fun hroom htidy => (hfit ⟨hroom, htidy⟩).elim⟩)
        fun _ hs => hs
  refine hattach.ends_mono ?_ fun _ _ session hs => (hnew session hs).elim
  rintro session s ⟨⟨base, rfl⟩, hshadow⟩ _ ⟨⟩ hroom htidy
  exact ⟨candidate, hverified, rfl, rfl, hshadow hroom htidy⟩

/-! ### Restoring -/

private theorem Target.Shadow.siteAddress (h : origin.Shadow head alone t) (site : Site) :
    t.siteAddress site = origin.siteAddress site := by
  unfold Target.siteAddress
  rw [h.moduleBase]

/-- The process is a shadow, and the sites `done` were put back. -/
def Target.PuttingBack (origin : Target) (head : UInt32) (alone : Target) (done : List (Snapshot × Bool)) (t : Target) :
    Prop :=
  origin.Shadow head alone t ∧ ∀ one ∈ done, one.2 = true ∧ t.entry one.1.site = origin.entry one.1.site

/-- Putting back one site leaves the others as they are. -/
private theorem Target.PuttingBack.next {done : List (Snapshot × Bool)} (h : origin.PuttingBack head alone done t)
    (hbuild : build ∈ Build.known) (hown : origin.Own build) (hsnapshot : snapshot ∈ build.snapshots origin.moduleBase)
    (hok : (t.write snapshot.code.base snapshot.code.bytes).1 = .ok ()) :
    origin.PuttingBack head alone (done ++ [(snapshot, true)]) (t.write snapshot.code.base snapshot.code.bytes).2 := by
  obtain ⟨hshadow, hdone⟩ := h
  have hlength := Build.length_snapshots hsnapshot
  have hbase := Target.base_of_snapshot hbuild hsnapshot
  have hshadow' := hshadow.write hok fun i hi => ⟨snapshot.site, by rw [hbase]; omega, by rw [hbase]; omega⟩
  obtain ⟨-, hwrite⟩ := t.write_spec snapshot.code.base snapshot.code.bytes
  rw [hok] at hwrite
  have hhere : (t.write snapshot.code.base snapshot.code.bytes).2.entry snapshot.site = origin.entry snapshot.site := by
    have hback := peekIn_of_pokeIn hwrite
    rw [hlength] at hback
    rw [hown snapshot.site, Target.entry, hshadow'.siteAddress, ← hbase]
    refine hback.trans ?_
    rw [Target.mem_snapshots hsnapshot]
  refine ⟨hshadow', fun one hone => ?_⟩
  rcases List.mem_append.1 hone with hone | hone
  · refine ⟨(hdone one hone).1, ?_⟩
    by_cases hsite : one.1.site = snapshot.site
    · rw [hsite]
      exact hhere
    · have hapart := origin.siteAddress_apart hsite
      rw [← (hdone one hone).2, Target.entry, Target.entry, hshadow'.siteAddress, hshadow.siteAddress]
      refine peekIn_of_pokeIn_apart hwrite ?_
      rw [hlength, hbase]
      omega
  · rw [List.mem_singleton.1 hone]
    exact ⟨rfl, hhere⟩

/-- What is left of a session that was undone: nothing but its traces at the sites, and these are as before. -/
structure Target.Undone (origin alone t : Target) : Prop where
  is64Bit : t.is64Bit = origin.is64Bit
  moduleBase : t.moduleBase = origin.moduleBase
  entry : ∀ site, t.entry site = origin.entry site
  mapped : List.Forall₂ (Region.SameAt fun a => ¬ origin.InSite a) alone.mapped t.mapped
  blocks : List.Forall₂ (Region.SameAt fun a => ¬ origin.InSite a) alone.blocks t.blocks

/-- When all sites were put back and the head block was released, nothing else is left. -/
private theorem Target.PuttingBack.undone {done : List (Snapshot × Bool)} (hback : origin.PuttingBack head alone done t)
    (hown : origin.Own build) (hdone : done.map (·.1) = build.snapshots origin.moduleBase)
    (hok : (t.free head).1 = .ok ()) : origin.Undone alone (t.free head).2 := by
  obtain ⟨h, hsites⟩ := hback
  have hentry : ∀ site, t.entry site = origin.entry site := by
    intro site
    have hsite : (⟨site, preamble site build origin.moduleBase⟩ : Snapshot) ∈ done.map (·.1) := by
      rw [hdone]
      exact build.mem_snapshots origin.moduleBase site
    obtain ⟨one, hone, hsame⟩ := List.mem_map.1 hsite
    have hback := (hsites one hone).2
    rwa [hsame] at hback
  obtain ⟨hbit, hmodule, hmapped, hblocks, block, hregions⟩ := h.free hok
  refine ⟨hbit, hmodule, fun site => ?_, hmapped, hblocks⟩
  -- the block that went was the last region that is looked at
  have hextents : (t.free head).2.regions.map Region.extent = origin.regions.map Region.extent := by
    rw [Target.regions, Target.regions, List.map_append, List.map_append, Target.map_extent_of_forall₂ hmapped,
      Target.map_extent_of_forall₂ hblocks, h.shape.mapped, h.shape.blocks]
  have hsome : (peekIn (t.free head).2.regions (origin.siteAddress site).toNat 6).isSome = true := by
    rw [isSome_peekIn_congr hextents]
    exact Option.isSome_of_eq_some (hown site)
  obtain ⟨bytes, hbytes⟩ := Option.isSome_iff_exists.1 hsome
  have hthen : (t.free head).2.entry site = some bytes := by
    rw [Target.entry, Target.siteAddress, hmodule]
    exact hbytes
  have hbefore : t.entry site = some bytes := by
    have hall : t.entry site = peekIn t.regions (origin.siteAddress site).toNat 6 := by
      rw [Target.entry, h.siteAddress]
      rfl
    rw [hall, hregions, peekIn_append, hbytes, Option.some_or]
  rw [hthen, ← hbefore, hentry site]

section Restore

variable {session : Session Handle} (hbuild : build ∈ Build.known) (hown : origin.Own build)
  (hplaced : ∀ snapshot ∈ build.snapshots origin.moduleBase, snapshot.code.isPlaced = true)
  (hsnapshots : session.snapshots = build.snapshots origin.moduleBase)
include hbuild hown hplaced hsnapshots

/-- A rollback undoes the session, or a failure is on the list. -/
private theorem ensures_rollback_undone :
    Action.Ensures (FailedOr session.process (origin.Shadow session.head alone))
      ((Journal.platform processes).rollback session.process session.snapshots session.head)
      fun _ => FailedOr session.process (origin.Undone alone) := by
  have hmem : ∀ (done : List (Snapshot × Bool)) s rest, done.map (·.1) ++ s :: rest = session.snapshots →
      s ∈ build.snapshots origin.moduleBase := by
    intro done s rest hdone
    rw [← hsnapshots, ← hdone]
    exact List.mem_append_right _ (List.mem_cons_self ..)
  refine (Platform.ensures_rollback
    (fun done => FailedOr session.process (origin.PuttingBack session.head alone done))
    (fun done s rest hdone => ?_) (fun done s rest hdone hunplaced => ?_) (fun done hdone hall => ?_)
    (fun done hdone hall w hw => ?_)).mono (fun s hs => hs.imp id fun hs => ⟨hs, nofun⟩) fun _ _ hs => hs
  · exact (ensures_write_listed _ fun t hback hok => hback.next hbuild hown (hmem done s rest hdone) hok).failed_mono
      fun _ hs => .inl hs
  · rw [hplaced s (hmem done s rest hdone)] at hunplaced
    cases hunplaced
  · exact (ensures_free_listed _ fun t hback hok => hback.undone hown (hdone.trans hsnapshots) hok).failed_mono
      fun _ hs => .inl hs
  · refine .inl (hw.resolve_right fun hback => ?_)
    rw [List.all_eq_true.2 fun one hone => (hback.2 one hone).1] at hall
    cases hall

private theorem ensures_restore_undone {w : World}
    (hshadow : origin.Shadow session.head alone (w.target session.process.slot)) :
    Action.Ensures (fun s : Journal (Faulty World) => s.world.world = w) ((Journal.platform processes).restore session)
      fun _ => FailedOr session.process (origin.Undone alone) := by
  unfold Platform.restore
  refine Action.Ensures.bind ((Journal.quiet (World.quiet w).faulty).hasExited session.process) fun exited => ?_
  cases exited with
  | true =>
    exact Action.Ensures.bind Action.Ensures.report fun _ =>
      (ensures_close_listed _).mono (fun _ hs => .inl hs) fun _ _ hs => hs
  | false =>
    have hrollback := (@ensures_rollback_undone origin alone build session hbuild hown hplaced hsnapshots).mono
      (fun (s : Journal (Faulty World)) (hs : s.world.world = w) => .inr (hs ▸ hshadow)) fun _ _ hs => hs
    refine Action.Ensures.bind hrollback fun restored => ?_
    cases restored with
    | true => exact Action.Ensures.bind Action.Ensures.report fun _ => ensures_close_listed _
    | false => exact Action.Ensures.bind Action.Ensures.report fun _ => ensures_close_listed _

end Restore

/-- The signature lies apart from the sites. -/
private theorem Target.not_inSite_signature (origin : Target) {i : Nat} (hi : i < 4) :
    ¬ origin.InSite ((origin.moduleBase + Build.signatureOffset).toNat + i) := by
  rintro ⟨site, hfrom, hto⟩
  have hoffset := site.offset_lt
  have := origin.moduleBase.toNat_lt
  have hsignature : Build.signatureOffset.toNat = 0x230000 := rfl
  simp only [siteAddress, UInt32.toNat_add, hsignature] at hfrom hto
  omega

/-- What is left of a session that was undone is accepted again. -/
private theorem Target.Undone.candidate?_eq {candidate : Candidate Handle} {w later : World} {handle : Handle}
    (h : (w.target candidate.process.slot).Undone alone t) (hverified : candidate.Verified w.sight)
    (hsignature : alone.peek? ((w.target candidate.process.slot).moduleBase + Build.signatureOffset) 4 =
      (w.target candidate.process.slot).peek? ((w.target candidate.process.slot).moduleBase + Build.signatureOffset) 4)
    (hlater : t.SameMemory (later.target handle.slot)) :
    later.sight.candidate? handle = some { candidate with process := handle } := by
  have hmodule : (later.target handle.slot).moduleBase = (w.target candidate.process.slot).moduleBase :=
    hlater.moduleBase.trans h.moduleBase
  have hregions : (later.target handle.slot).regions = t.regions := by
    rw [Target.regions, Target.regions, hlater.mapped, hlater.blocks]
  refine hverified.candidate?_eq ?_ (hmodule.trans hverified.base.symm) ?_ fun snapshot hsnapshot => ?_
  · exact (hlater.is64Bit.trans h.is64Bit).trans hverified.narrow
  · have hread : (later.target handle.slot).peek? ((later.target handle.slot).moduleBase + Build.signatureOffset) 4 =
        (w.target candidate.process.slot).peek?
          ((w.target candidate.process.slot).moduleBase + Build.signatureOffset) 4 := by
      rw [hmodule, Target.peek?_congr hregions, ← hsignature]
      exact peekIn_of_sameAt (List.rel_append h.mapped h.blocks) fun i hi =>
        (w.target candidate.process.slot).not_inSite_signature hi
    have hsame : later.sight.build? handle = w.sight.build? candidate.process :=
      congrArg (fun found : Option Bytes => found.bind fun bytes => Build.ofSignature? bytes.word) hread
    exact hsame.trans hverified.build
  · obtain ⟨hplaced, hcode⟩ := hverified.code snapshot hsnapshot
    refine ⟨hplaced, Eq.trans ?_ hcode⟩
    have hmem := hsnapshot
    rw [hverified.snapshots, hverified.base] at hmem
    have hlength := Build.length_snapshots hmem
    have hentry := h.entry snapshot.site
    rw [Target.entry, Target.entry, Target.siteAddress, h.moduleBase, ← Target.peek?_congr hregions] at hentry
    show (later.target handle.slot).peek? _ _ = (w.target candidate.process.slot).peek? _ _
    rw [hlength, Target.base_of_snapshot hverified.known hmem]
    exact hentry

end Session

/-! ### The whole visit -/

namespace Visit

/-- The moment after the call in which the engine attaches. -/
def attached (engine : Engine Handle) (before : Traced (Faulty World)) (slot : Nat) : Visit :=
  ⟨(engine.update processes before).1.1, (engine.update processes before).2, before.world.world.target slot⟩

variable {engine : Engine Handle} {before : Traced (Faulty World)} {slot : Nat} {origin : Target} {build : Build}
  {visit : Visit}

private theorem held_attached (hnone : engine.session = none)
    (hattached : (attached engine before slot).engine.IsAttachedTo slot)
    (hroom : (before.world.world.target slot).HasRoom) (htidy : (before.world.world.target slot).Tidy) :
    ∃ candidate : Candidate Handle, candidate.Verified before.world.world.sight ∧ candidate.process.slot = slot ∧
      Held (before.world.world.target slot) slot candidate.build (attached engine before slot) := by
  have hupdate : Action.Ensures (fun s : Faulty World => s.world = before.world.world) (engine.update processes)
      fun result (s : Faulty World) => ∀ session ∈ result.1.session,
        (before.world.world.target session.process.slot).HasRoom →
        (before.world.world.target session.process.slot).Tidy →
        ∃ candidate : Candidate Handle, candidate.Verified before.world.world.sight ∧
          session.process = candidate.process ∧ session.snapshots = candidate.snapshots ∧
          (before.world.world.target session.process.slot).Shadow session.head
            (before.world.world.target session.process.slot) (s.world.target session.process.slot) := by
    unfold Engine.update
    rw [hnone]
    exact Action.Ensures.bind (ensures_tryAttach_shadow hnone) fun _ => Action.Ensures.pure fun _ hs => hs
  obtain ⟨session, hsession, rfl⟩ := hattached
  obtain ⟨candidate, hverified, hprocess, hsnapshots, hshadow⟩ := hupdate before rfl session hsession hroom htidy
  refine ⟨candidate, hverified, by rw [hprocess], session, hsession, rfl, ?_, hshadow⟩
  rw [hsnapshots, hverified.snapshots, hverified.base, hprocess]
  rfl

private theorem Held.shutdown (h : Held origin slot build visit) (hbuild : build ∈ Build.known)
    (hown : origin.Own build) (hplaced : ∀ snapshot ∈ build.snapshots origin.moduleBase, snapshot.code.isPlaced = true)
    (hclean : ∀ access ∈ processes.accesses (fun platform => visit.engine.shutdown platform) visit.state,
      access.succeeds = true) :
    origin.Undone visit.alone ((visit.engine.shutdown processes visit.state).2.world.world.target slot) ∧
      (visit.engine.shutdown processes visit.state).1.1.session = none := by
  obtain ⟨session, hsession, rfl, hsnapshots, hshadow⟩ := h
  have hshutdown : Action.Ensures (fun s : Journal (Faulty World) => s.world.world = visit.state.world.world)
      (visit.engine.shutdown (Journal.platform processes))
      fun result s => result.1.session = none ∧ FailedOr session.process (origin.Undone visit.alone) s := by
    unfold Engine.shutdown
    rw [hsession]
    exact Action.Ensures.bind (ensures_restore_undone hbuild hown hplaced hsnapshots hshadow) fun _ =>
      Action.Ensures.pure fun _ hs => ⟨rfl, hs⟩
  obtain ⟨hnone, hundone⟩ := hshutdown (Journal.start visit.state) rfl
  rw [show visit.engine.shutdown processes visit.state = _ from
    (Journal.erases processes).shutdown visit.engine (Journal.start visit.state)]
  exact ⟨hundone.resolve_left (Journal.not_failed hclean), hnone⟩

/-- **Attaching and shutting down are inverse.** An engine attaches to a process, is called any number of times while
bytes are poked into the memory of the process, and is shut down, and no access of the shutdown fails. Then

* all sites hold what they held before, and the blocks that are allocated are those of before;
* all other mapped memory is what the pokes alone would have left;
* the engine is detached;
* if the signature was left alone, the process is found again and can be patched again, as long as no access fails;
* another shutdown accesses nothing and changes nothing. -/
theorem shutdown_undoes_attach (hnone : engine.session = none)
    (hattached : (attached engine before slot).engine.IsAttachedTo slot)
    (hroom : (before.world.world.target slot).HasRoom) (htidy : (before.world.world.target slot).Tidy)
    (hrun : Relation.ReflTransGen (Step slot) (attached engine before slot) visit)
    (hclean : ∀ access ∈ processes.accesses (fun platform => visit.engine.shutdown platform) visit.state,
      access.succeeds = true) :
    let origin := before.world.world.target slot
    let after := visit.engine.shutdown processes visit.state
    let t := after.2.world.world.target slot
    (∀ site, t.entry site = origin.entry site) ∧
    t.blocks.map Region.extent = origin.blocks.map Region.extent ∧
    List.Forall₂ (Region.SameAt fun a => ¬ origin.InSite a) visit.alone.mapped t.mapped ∧
    after.1.1.session = none ∧
    (visit.alone.peek? (origin.moduleBase + Build.signatureOffset) 4 =
        origin.peek? (origin.moduleBase + Build.signatureOffset) 4 →
      ∀ (handle : Handle) (later : Traced (Faulty World)), handle.slot = slot →
        t.SameMemory (later.world.world.target slot) → processes.Attachable handle later) ∧
    ∀ later : Traced (Faulty World), processes.accesses (fun platform => after.1.1.shutdown platform) later = [] ∧
      after.1.1.shutdown processes later = ((after.1.1, []), later) := by
  intro origin after t
  obtain ⟨candidate, hverified, rfl, hheld⟩ := held_attached hnone hattached hroom htidy
  have hheld' := hheld.run hrun
  have hown : origin.Own candidate.build := fun site => by
    have hentry := entry_of_verified hverified site
    rwa [hverified.base] at hentry
  have hplaced : ∀ snapshot ∈ candidate.build.snapshots origin.moduleBase, snapshot.code.isPlaced = true := by
    intro snapshot hsnapshot
    refine (hverified.code snapshot ?_).1
    rw [hverified.snapshots, hverified.base]
    exact hsnapshot
  obtain ⟨hundone, hdetached⟩ := hheld'.shutdown hverified.known hown hplaced hclean
  refine ⟨hundone.entry, ?_, hundone.mapped, hdetached, ?_, fun later => ?_⟩
  · rw [Target.map_extent_of_forall₂ hundone.blocks]
    exact (hheld'.choose_spec.2.2.2).shape.blocks
  · intro hsignature handle later hslot hlater
    rw [← hslot] at hlater
    exact (World.quiet later.world.world).faulty.attachable (hundone.candidate?_eq hverified hsignature hlater) rfl
  · have hshutdown : ∀ {τ : Type} (platform : Platform τ Handle) (s : Traced τ),
        after.1.1.shutdown platform s = ((after.1.1, []), s) := by
      intro τ platform s
      unfold Engine.shutdown
      rw [hdetached]
      rfl
    refine ⟨?_, hshutdown processes later⟩
    rw [Platform.accesses, hshutdown]
    rfl

/-! ### A visit in which bytes are poked -/

/-- Bytes are poked into the process, and into the one without the engine. -/
def poked (visit : Visit) (slot : Nat) (address : UInt32) (bytes : Bytes) : Visit where
  engine := visit.engine
  state :=
    let target := ((visit.target slot).poke? address bytes).getD (visit.target slot)
    { visit.state with world := { visit.state.world with world := visit.state.world.world.setTarget slot target } }
  alone := (visit.alone.poke? address bytes).getD visit.alone

private theorem step_poked {address : UInt32} {bytes : Bytes} (hslot : slot < visit.state.world.world.targets.length)
    (h : ((visit.target slot).poke? address bytes).isSome = true) :
    Step slot visit (visit.poked slot address bytes) := by
  obtain ⟨t, ht⟩ := Option.isSome_iff_exists.1 h
  refine .poke visit address bytes (visit.poked slot address bytes).state ?_
  show _ = some ((visit.state.world.world.setTarget slot _).target slot)
  rw [World.target_setTarget, if_pos ⟨rfl, hslot⟩, ht, Option.getD_some]

/-- A process of the retail build with the memory around the byte that tells of a modal screen. -/
def roomyGame : Target := Scene.retailGame.map (.zeros 0x6622B0 16)

def arrival : Traced (Faulty World) := { world := { world := ({} : World).add roomyGame false } }

/-- The first site was overwritten, and so was other memory. -/
def overwritten : Visit := ((attached {} arrival 0).poked 0 0x403B80 [1, 2, 3, 4, 5, 6]).poked 0 0x6622B8 [7]

def polled : Visit where
  engine := (overwritten.engine.update processes overwritten.state).1.1
  state := (overwritten.engine.update processes overwritten.state).2
  alone := overwritten.alone

/-- The site is put back, the other memory is not, and the process is found again. -/
theorem shutdown_undoes_attach_overwritten :
    (polled.target 0).entry .game = some [1, 2, 3, 4, 5, 6] ∧
    ((polled.engine.shutdown processes polled.state).2.world.world.target 0).entry .game = roomyGame.entry .game ∧
    ((polled.engine.shutdown processes polled.state).2.world.world.target 0).peek? 0x6622B8 1 = some [7] ∧
    ∃ candidate, ((processes.probe ⟨0, 7⟩).outcome (polled.engine.shutdown processes polled.state).2).1 =
      .ok (some candidate) := by
  have hattached : (attached {} arrival 0).engine.IsAttachedTo 0 := by
    have hslot : (attached {} arrival 0).engine.session.map (·.process.slot) = some 0 := by decide +kernel
    exact Option.map_eq_some_iff.1 hslot
  have hroom : (arrival.world.world.target 0).HasRoom :=
    Target.fits_of_extents (by decide +kernel) (by decide +kernel) (by decide +kernel)
  have hrun : Relation.ReflTransGen (Step 0) (attached {} arrival 0) polled :=
    ((Relation.ReflTransGen.refl.tail (step_poked (by decide +kernel) (by decide +kernel))).tail
      (step_poked (by decide +kernel) (by decide +kernel))).tail (.poll overwritten (by decide +kernel))
  obtain ⟨hentry, -, -, -, hagain, -⟩ := shutdown_undoes_attach rfl hattached hroom ⟨Nat.le_refl _, nofun⟩ hrun
    (by decide +kernel)
  obtain ⟨candidate, hfound, -⟩ := hagain (by decide +kernel) ⟨0, 7⟩ _ rfl (.refl _) (by decide +kernel)
  exact ⟨by decide +kernel, hentry .game, by decide +kernel, candidate, hfound⟩

end Visit

end LoadRemover.InMemory
