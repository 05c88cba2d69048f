import LoadRemover.Proofs.Footprints

/-!
# Nothing else is touched

In a `Patrol` an engine is called again and again, and anything may happen to the processes between its calls, also to
their sites and blocks. Kept with it are the candidates that it has accepted and what it has done so far. A byte that a
call has changed lies in a site of a process that the engine has accepted, or in a block that the engine itself has
allocated there (`Patrol.spares_everything_else`).

The invariant is `Patrol.Held`. What a call comes to is its `Patrol.Outcome`: either it has done nothing, or all it has
done was done, with care, to the one process that it is about.
-/

namespace LoadRemover.InMemory

/-! ### Listing and opening -/

/-- No two living processes have the same number. -/
def World.Numbered (w : World) : Prop :=
  ∀ slot ∈ w.living, ∀ slot' ∈ w.living, (w.target slot).info.pid = (w.target slot').info.pid → slot = slot'

private theorem ensures_listing (w : World) :
    Attempt.Ensures (fun s : Faulty World => s.world = w) processes.processes
      (fun infos _ => infos = w.living.map fun slot => (w.target slot).info) fun _ => True := by
  have hlisting : Attempt.Ensures (· = w) World.platform.processes
      (fun infos _ => infos = w.living.map fun slot => (w.target slot).info) fun _ => True := by
    refine Attempt.Ensures.look (fun w : World => if w.refuseListing then .error (.listing "injected failure")
      else .ok (w.living.map fun slot => (w.target slot).info)) ?_ fun _ _ => trivial
    rintro _ rfl infos hinfos
    split at hinfos
    · cases hinfos
    · exact (Except.ok.inj hinfos).symm
  exact Faulty.ensures_beneath_run hlisting

/-- A number stands for the first living process that has it. -/
theorem ensures_opened (w : World) (info : ProcessInfo) :
    Attempt.Ensures (fun s : Faulty World => s.world = w) (processes.openProcess info)
      (fun handle _ => ∃ slot ∈ w.living, (w.target slot).info.pid = info.pid ∧ handle = w.handle slot)
      fun _ => True := by
  have hopen : Attempt.Ensures (· = w) (World.platform.openProcess info)
      (fun handle _ => ∃ slot ∈ w.living, (w.target slot).info.pid = info.pid ∧ handle = w.handle slot)
      fun _ => True := by
    dsimp only [World.platform]
    refine Attempt.Ensures.onWorld fun w hw => ?_
    subst hw
    dsimp only
    cases hfind : w.living.find? fun slot => (w.target slot).info.pid == info.pid with
    | none => trivial
    | some slot =>
      have hpid := List.find?_some hfind
      exact ⟨slot, List.mem_of_find?_eq_some hfind, beq_iff_eq.1 hpid, rfl⟩
  exact Faulty.ensures_guarded hopen (fun _ _ => trivial) info.pid .openProcess

/-! ### Runs -/

/-- An engine with the processes of a world, the candidates that it has accepted and what it has done so far. -/
structure Patrol where
  engine : Engine Handle
  state : Traced (Faulty World)
  accepted : List (Candidate Handle) := []
  deeds : List (Deed Handle) := []

namespace Patrol

def now (patrol : Patrol) : World := patrol.state.world.world

def target (patrol : Patrol) (slot : Nat) : Target := patrol.now.target slot

def call (patrol : Patrol) (request : Request) : Call (Faulty World) Handle := ⟨patrol.engine, request, patrol.state⟩

def answer (patrol : Patrol) (request : Request) : Patrol where
  engine := (patrol.call request).after processes
  state := ((patrol.call request).answer processes).2
  accepted := patrol.accepted ++ ((patrol.call request).found? processes).toList
  deeds := patrol.deeds ++ (patrol.call request).deeds processes

/-- There is no process yet. -/
def start (config : EngineConfig) : Patrol := ⟨{ config }, { world := { world := {} } }, [], []⟩

inductive Step : Patrol → Patrol → Prop
  | call (patrol : Patrol) (request : Request) : Step patrol (patrol.answer request)
  /-- Processes start and end, their memory changes, others use them too, and failures are injected. -/
  | other (patrol : Patrol) (world : Faulty World) (h : ∀ slot, (patrol.target slot).Turns (world.world.target slot)) :
      Step patrol { patrol with state := { patrol.state with world } }

def Reachable (patrol : Patrol) : Prop := ∃ config, Relation.ReflTransGen Step (start config) patrol

/-- What holds of every patrol. -/
structure Held (patrol : Patrol) : Prop where
  lends : patrol.now.Lends patrol.deeds
  session : ∀ session ∈ patrol.engine.session, session.candidate ∈ patrol.accepted ∧
    session.snapshots = session.build.snapshots session.moduleBase ∧
    ∃ size, .allocate session.process size (.ok session.head) ∈ patrol.deeds

variable {patrol patrol' : Patrol}

/-! ### What a call comes to -/

/-- The candidate whose process a call patches or puts back. -/
def subject? (patrol : Patrol) : Request → Option (Candidate Handle)
  | .update => (patrol.call .update).found? processes
  | .shutdown => patrol.engine.session.map (·.candidate)

/-- The call has done nothing, or what it has done was done to its subject with care. -/
structure Outcome (patrol : Patrol) (request : Request) (engine : Engine Handle) (s : Deeds (Faulty World) Handle) :
    Prop where
  worked : Idle patrol.now s ∨ ∃ candidate ∈ patrol.subject? request, Worked candidate patrol.deeds patrol.now s
  session : ∀ session ∈ engine.session, session.candidate ∈ (patrol.answer request).accepted ∧
    session.snapshots = session.build.snapshots session.moduleBase ∧
    ∃ size, .allocate session.process size (.ok session.head) ∈ patrol.deeds ++ s.done

private theorem Held.outcome_idle (h : patrol.Held) (request : Request) {engine : Engine Handle}
    {s : Deeds (Faulty World) Handle} (hidle : Idle patrol.now s)
    (hsession : ∀ session ∈ engine.session, ∃ before ∈ patrol.engine.session, before.SameProcess session) :
    patrol.Outcome request engine s := by
  refine ⟨.inl hidle, fun session hmem => ?_⟩
  obtain ⟨before, hbefore, hsame⟩ := hsession session hmem
  obtain ⟨haccepted, hsnapshots, size, hblock⟩ := h.session before hbefore
  have hcandidate : session.candidate = before.candidate := by
    unfold Session.candidate
    rw [hsame.process, hsame.build, hsame.moduleBase, hsame.snapshots]
  refine ⟨List.mem_append_left _ (hcandidate ▸ haccepted), ?_, size, ?_⟩
  · rw [hsame.snapshots, hsame.build, hsame.moduleBase]
    exact hsnapshots
  · rw [hsame.process, hsame.head]
    exact List.mem_append_left _ hblock

/-- What an update accepts has the code of its build at every site. -/
private theorem Held.outcome_detached (h : patrol.Held) (hsession : patrol.engine.session = none) :
    patrol.Outcome .update ((patrol.call .update).noted processes).1.1
      ((patrol.call .update).noted processes).2.world := by
  have hfound? : (patrol.call .update).found? processes =
      ((Deeds.platform processes).findTarget patrol.engine.config.processName (Deeds.start patrol.state)).1 := by
    have herased := (Deeds.erases processes).findTarget patrol.engine.config.processName (Deeds.start patrol.state)
    simp only [Call.found?, call, hsession]
    exact congrArg Prod.fst herased
  have hidle : Idle patrol.now (Deeds.start patrol.state).world := ⟨rfl, rfl⟩
  have hfind := (quiet_idle patrol.now).ensures_findTarget (fun _ hs => hs) patrol.engine.config.processName
    (Deeds.start patrol.state) hidle
  have hattach : patrol.Outcome .update
      (patrol.engine.tryAttach (Deeds.platform processes) (Deeds.start patrol.state)).1
      (patrol.engine.tryAttach (Deeds.platform processes) (Deeds.start patrol.state)).2.world := by
    cases hfound : ((Deeds.platform processes).findTarget patrol.engine.config.processName
      (Deeds.start patrol.state)).1 with
    | none =>
      rw [Engine.tryAttach_of_none hfound]
      refine h.outcome_idle .update hfind.2 ?_
      rw [hsession]
      nofun
    | some candidate =>
      have hverified := hfind.1 candidate hfound
      have hsubject : candidate ∈ patrol.subject? .update := hfound?.trans hfound
      have haccepted : candidate ∈ (patrol.answer .update).accepted :=
        List.mem_append_right _ (Option.mem_toList.2 hsubject)
      refine Engine.tryAttach_of_some hfound
        ((ensures_attach_worked h.lends hverified).ends_mono ?_ ?_) hfind.2
      · rintro session s ⟨⟨rfl, hblock⟩, hworked⟩
        refine ⟨.inr ⟨session.candidate, hsubject, hworked⟩, ?_⟩
        rintro _ ⟨⟩
        exact ⟨haccepted, hverified.snapshots, hblock⟩
      · intro s hworked
        refine ⟨.inr ⟨candidate, hsubject, hworked⟩, ?_⟩
        rw [hsession]
        nofun
  have hupdate : patrol.Outcome .update
      (patrol.engine.update (Deeds.platform processes) (Deeds.start patrol.state)).1.1
      (patrol.engine.update (Deeds.platform processes) (Deeds.start patrol.state)).2.world := by
    unfold Engine.update
    rw [hsession]
    exact hattach
  exact hupdate

private theorem Held.outcome_attached (h : patrol.Held) {session : Session Handle}
    (hsession : patrol.engine.session = some session) :
    patrol.Outcome .update ((patrol.call .update).noted processes).1.1
      ((patrol.call .update).noted processes).2.world := by
  have hupdate : Action.Ensures (Idle patrol.now) (patrol.engine.update (Deeds.platform processes)) fun result =>
      patrol.Outcome .update result.1 := by
    refine (quiet_idle patrol.now).ensures_update (fun _ hs => hs) (fun hnone => ?_)
      (fun session session' s hsession hsame hs => h.outcome_idle .update hs ?_)
      fun session s hsession hs => h.outcome_idle .update hs ?_
    · rw [hsession] at hnone
      cases hnone
    · rintro _ ⟨⟩
      exact ⟨session, hsession, hsame⟩
    · nofun
  exact hupdate (Deeds.start patrol.state) ⟨rfl, rfl⟩

private theorem Held.outcome_shutdown (h : patrol.Held) :
    patrol.Outcome .shutdown ((patrol.call .shutdown).noted processes).1.1
      ((patrol.call .shutdown).noted processes).2.world := by
  have hshutdown : Action.Ensures (Idle patrol.now) (patrol.engine.shutdown (Deeds.platform processes)) fun result =>
      patrol.Outcome .shutdown result.1 := by
    unfold Engine.shutdown
    cases hsession : patrol.engine.session with
    | none =>
      refine Action.Ensures.pure fun s hs => h.outcome_idle .shutdown hs ?_
      rw [hsession]
      nofun
    | some session =>
      obtain ⟨haccepted, hsnapshots, size, hblock⟩ := h.session session hsession
      have hsubject : session.candidate ∈ patrol.subject? .shutdown := congrArg (Option.map Session.candidate) hsession
      refine Action.Ensures.bind (ensures_restore_worked h.lends hsnapshots hblock) fun _ => ?_
      exact Action.Ensures.pure fun s hs => ⟨.inr ⟨_, hsubject, hs⟩, nofun⟩
  exact hshutdown (Deeds.start patrol.state) ⟨rfl, rfl⟩

private theorem Held.outcome (h : patrol.Held) (request : Request) :
    patrol.Outcome request ((patrol.call request).noted processes).1.1
      ((patrol.call request).noted processes).2.world := by
  cases request with
  | shutdown => exact h.outcome_shutdown
  | update =>
    cases hsession : patrol.engine.session with
    | none => exact h.outcome_detached hsession
    | some session => exact h.outcome_attached hsession

/-- Whatever a call patches or puts back was accepted, now or before. -/
private theorem Held.accepted (h : patrol.Held) {request : Request} {candidate : Candidate Handle}
    (hsubject : candidate ∈ patrol.subject? request) : candidate ∈ (patrol.answer request).accepted := by
  cases request with
  | update => exact List.mem_append_right _ (Option.mem_toList.2 hsubject)
  | shutdown =>
    obtain ⟨session, hsession, rfl⟩ := Option.map_eq_some_iff.1 hsubject
    exact List.mem_append_left _ (h.session session hsession).1

/-- All that a call does is meant for its subject. -/
private theorem Held.process_of_deed (h : patrol.Held) {request : Request} {deed : Deed Handle}
    (hdeed : deed ∈ (patrol.call request).deeds processes) :
    ∃ candidate ∈ patrol.subject? request, deed.process = candidate.process := by
  rcases (h.outcome request).worked with ⟨hdone, -⟩ | ⟨candidate, hsubject, hworked⟩
  · rw [Call.deeds, hdone] at hdeed
    cases hdeed
  · exact ⟨candidate, hsubject, hworked.proper.process deed hdeed⟩

/-- With its deeds written down a call goes as it does without. -/
private theorem answer_noted (patrol : Patrol) (request : Request) :
    (patrol.answer request).engine = ((patrol.call request).noted processes).1.1 ∧
      (patrol.answer request).now = ((patrol.call request).noted processes).2.world.world.world := by
  have hanswer := (patrol.call request).answer_eq_noted processes
  exact ⟨congrArg (fun answer => answer.1.1) hanswer, congrArg (fun answer => answer.2.world.world) hanswer⟩

/-- Nothing but sites of accepted candidates and blocks that were lent has changed. -/
private theorem Held.spared (h : patrol.Held) (request : Request) (slot : Nat)
    (hbounded : ((patrol.answer request).target slot).nextBlock ≤ 2 ^ 32) :
    Target.Spared
      (fun a => ∃ candidate ∈ (patrol.answer request).accepted, candidate.process.slot = slot ∧ candidate.InSite a)
      (Granted (patrol.answer request).deeds slot) (patrol.target slot) ((patrol.answer request).target slot) := by
  have hdeeds : (patrol.answer request).deeds =
      patrol.deeds ++ ((patrol.call request).noted processes).2.world.done := rfl
  unfold target at hbounded ⊢
  rw [(patrol.answer_noted request).2] at hbounded ⊢
  rw [hdeeds]
  rcases (h.outcome request).worked with ⟨hdone, hworld⟩ | ⟨candidate, hsubject, hworked⟩
  · rw [hworld] at hbounded ⊢
    rw [hdone, List.append_nil]
    exact ⟨h.lends slot hbounded, fun _ => .inl rfl⟩
  by_cases hslot : slot = candidate.process.slot
  · subst hslot
    obtain ⟨hlends, hbyte⟩ := hworked.careful hworked.proper hbounded
    exact ⟨hlends, fun a => (hbyte a).imp_right fun hin =>
      hin.imp_left fun hsite => ⟨candidate, h.accepted hsubject, rfl, hsite⟩⟩
  · -- nothing was granted in other processes
    have hgranted : ∀ base size,
        Granted (patrol.deeds ++ ((patrol.call request).noted processes).2.world.done) slot base size →
        Granted patrol.deeds slot base size := by
      intro base size hgranted
      refine (granted_append.1 hgranted).resolve_right ?_
      rintro ⟨process, rfl, hnew⟩
      exact hslot (congrArg Handle.slot (hworked.proper.process _ hnew))
    rw [hworked.others slot hslot] at hbounded ⊢
    exact ⟨(h.lends slot hbounded).congr hgranted, fun _ => .inl rfl⟩

/-! ### What a run comes to -/

private theorem Held.answer (h : patrol.Held) (request : Request) : (patrol.answer request).Held := by
  refine ⟨fun slot hbounded => (h.spared request slot hbounded).lends, ?_⟩
  rw [(patrol.answer_noted request).1]
  exact (h.outcome request).session

private theorem Held.step (h : patrol.Held) (hstep : Step patrol patrol') : patrol'.Held := by
  cases hstep with
  | call request => exact h.answer request
  | other world hturns =>
    refine ⟨fun slot hbounded => ?_, h.session⟩
    exact (h.lends slot (Nat.le_trans (hturns slot).nextBlock hbounded)).turns (hturns slot)

private theorem Reachable.held (h : patrol.Reachable) : patrol.Held := by
  obtain ⟨config, hrun⟩ := h
  induction hrun with
  | refl => exact ⟨fun slot _ => ⟨nofun, nofun⟩, nofun⟩
  | tail _ hstep ih => exact ih.step hstep

/-! ### What an engine accepts -/

/-- The candidate is the one to look for: it lives, it was listed under a fitting name, it can be opened, it has the
code of its build, and no access by which this was found out has failed. -/
structure Accepts (patrol : Patrol) (candidate : Candidate Handle) : Prop where
  living : candidate.process.slot ∈ patrol.now.living
  verified : candidate.Verified patrol.now.sight
  admitted : ∃ listed ∈ patrol.now.living,
    (patrol.target listed).info.nameContains patrol.engine.config.processName = true ∧
    (patrol.now.Numbered → listed = candidate.process.slot) ∧
    ∃ before : Traced (Faulty World), before.world.world = patrol.now ∧
      processes.Admits (patrol.target listed).info candidate before ∧
      ∀ access ∈ processes.accesses (fun platform => (platform.probe candidate.process).outcome)
        ((processes.openProcess (patrol.target listed).info).outcome before).2, access.succeeds = true

private theorem accepts_of_found {candidate : Candidate Handle}
    (h : (patrol.call .update).found? processes = some candidate) : patrol.Accepts candidate := by
  have hfound : (processes.findTarget patrol.engine.config.processName patrol.state).1 = some candidate := by
    simp only [Call.found?, call] at h
    split at h
    · exact h
    · cases h
  have hquiet := (World.quiet patrol.now).faulty
  obtain ⟨hverified, -⟩ := hquiet.ensures_findTarget (fun _ hs => hs) patrol.engine.config.processName patrol.state rfl
  obtain ⟨infos, hlisted, info, hinfo, hname, before, hbefore, hadmits⟩ :=
    (hquiet.custody fun _ hs => hs).admits_of_findTarget (s := patrol.state) rfl hfound
  have hlisting := ensures_listing patrol.now patrol.state rfl
  rw [hlisted] at hlisting
  obtain rfl := hlisting
  obtain ⟨listed, hmem, rfl⟩ := List.mem_map.1 hinfo
  have hopen := ensures_opened patrol.now (patrol.now.target listed).info before hbefore
  have hworld := hquiet.openProcess (patrol.now.target listed).info before hbefore
  rw [hadmits.opened] at hopen hworld
  obtain ⟨slot, hslot, hpid, hprocess⟩ := hopen
  have hsame : candidate.process.slot = slot := congrArg Handle.slot hprocess
  refine ⟨hsame ▸ hslot, hverified candidate hfound, listed, hmem, hname, fun hnumbered => ?_, before, hbefore, hadmits,
    hquiet.succeeds_of_probe hworld hadmits.accepted⟩
  rw [hsame]
  exact hnumbered listed hmem slot hslot hpid.symm

/-! ### What is spared -/

/-- **Nothing else is touched.** Whatever happens to the processes between the calls of an engine, and whatever fails: a
byte that a call has changed lies in a site of an accepted candidate, or in a block that the engine has allocated in
this process, as long as there are addresses left to be handed out. An update of an attached engine does nothing, even
if it ends the session. Any other update does something to the process only that it has accepted, and a shutdown only
to the process of its session, and nothing if this has ended. -/
theorem spares_everything_else (h : patrol.Reachable) (request : Request) :
    (∀ slot a, ((patrol.answer request).target slot).nextBlock ≤ 2 ^ 32 →
      ((patrol.answer request).target slot).peek? a 1 ≠ (patrol.target slot).peek? a 1 →
      (∃ candidate ∈ (patrol.answer request).accepted, candidate.process.slot = slot ∧ candidate.InSite a) ∨
        Target.Lent (Granted (patrol.answer request).deeds slot) a) ∧
    (request = .update → patrol.engine.isAttached = true → (patrol.call request).deeds processes = []) ∧
    (request = .update → ∀ deed ∈ (patrol.call request).deeds processes,
      ∃ candidate ∈ (patrol.call request).found? processes,
        deed.process = candidate.process ∧ patrol.Accepts candidate) ∧
    (request = .shutdown → ∀ deed ∈ (patrol.call request).deeds processes,
      ∃ session ∈ patrol.engine.session, deed.process = session.process ∧ session.candidate ∈ patrol.accepted) ∧
    (request = .shutdown → ∀ session ∈ patrol.engine.session,
      (processes.hasExited session.process patrol.state).1 = true → (patrol.call request).deeds processes = []) := by
  refine ⟨fun slot a hbounded hchanged => ?_, ?_, ?_, ?_, ?_⟩
  · exact ((h.held.spared request slot hbounded).byte a).resolve_left hchanged
  · rintro rfl hattached
    obtain ⟨session, hsession⟩ := Option.isSome_iff_exists.1 hattached
    exact Call.deeds_of_poll rfl hsession
  · rintro rfl deed hdeed
    obtain ⟨candidate, hfound, hprocess⟩ := h.held.process_of_deed hdeed
    exact ⟨candidate, hfound, hprocess, accepts_of_found hfound⟩
  · rintro rfl deed hdeed
    obtain ⟨candidate, hsubject, hprocess⟩ := h.held.process_of_deed hdeed
    obtain ⟨session, hsession, rfl⟩ := Option.map_eq_some_iff.1 hsubject
    exact ⟨session, hsession, hprocess, (h.held.session session hsession).1⟩
  · rintro rfl session hsession hended
    exact Call.deeds_of_ended rfl hsession hended

/-! #### A process beside the game -/

/-- The game, as it would be on a machine of 64 bits. -/
def wideGame : Target := { Scene.retailGame with info := ⟨5, "mc2.exe"⟩, is64Bit := true }

/-- Both are running. -/
def besideGame : Patrol :=
  { start {} with state := { world := { world := { targets := [wideGame, Scene.retailGame], listed := [0, 1] } } } }

private theorem reachable_besideGame : besideGame.Reachable := by
  refine ⟨{}, Relation.ReflTransGen.refl.tail (.other (start {}) besideGame.state.world fun slot => ?_)⟩
  rcases slot with _ | _ | slot
  · exact ⟨Nat.le_refl _, nofun⟩
  · exact ⟨Nat.le_refl _, nofun⟩
  · exact (Target.SameShape.refl World.absent).turns

/-- An update patches the game and does nothing to the process beside it. -/
theorem spares_everything_else_beside :
    ((besideGame.answer .update).target 1).peek? 0x403B80 1 ≠ (besideGame.target 1).peek? 0x403B80 1 ∧
      ((∃ candidate ∈ (besideGame.answer .update).accepted,
          candidate.process.slot = 1 ∧ candidate.InSite 0x403B80) ∨
        Target.Lent (Granted (besideGame.answer .update).deeds 1) 0x403B80) ∧
      ∀ deed ∈ (besideGame.call .update).deeds processes, deed.process.slot ≠ 0 := by
  obtain ⟨hbytes, -, haccepted, -⟩ := spares_everything_else reachable_besideGame .update
  have hchanged : ((besideGame.answer .update).target 1).peek? 0x403B80 1 ≠ (besideGame.target 1).peek? 0x403B80 1 := by
    decide +kernel
  refine ⟨hchanged, hbytes 1 0x403B80 (by decide +kernel) hchanged, fun deed hdeed hslot => ?_⟩
  obtain ⟨candidate, -, hprocess, haccepts⟩ := haccepted rfl deed hdeed
  -- what was accepted is of 32 bits
  have hnarrow : (besideGame.target candidate.process.slot).is64Bit = false := haccepts.verified.narrow
  rw [← hprocess, hslot] at hnarrow
  cases hnarrow

end Patrol

end LoadRemover.InMemory
