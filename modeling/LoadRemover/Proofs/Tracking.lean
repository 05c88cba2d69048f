import LoadRemover.Proofs.Readings
import LoadRemover.Proofs.Transparency

/-!
# The signal follows the memory

For processes in memory the reading of a poll is what the two bytes are while it runs, so the signal afterwards is the
signal of these bytes, whatever they were before and whatever was read earlier
(`InMemory.signal_tracks_memory`). The loading flag is read where the code of the installed block puts it: all
wrappers of a block store at one address, that of its flag (`Head.stores_placed`). A session that begins knows
nothing about either flag, and an engine whose session has ended is as it was when it was made
(`Call.after_of_detached`).
-/

namespace LoadRemover

open X86

/-! ### Where wrappers store -/

/-- The wrapper that a layout names stores at `flag`, the busy value before its call and the site's end value after it,
and nowhere else. -/
def Head.StoresAt (head : Head) (flag : UInt32) (layout : SiteLayout) : Prop :=
  ∃ bytes distance, bytes <+: head.code.bytes.drop layout.wrapper ∧
    (sweep? bytes).map (·.map (·.2)) = some (.storeByte flag Flag.busy :: forward layout.site.stackArgs.toNat ++
      [.call distance, .storeByte flag layout.site.endValue, .ret (UInt16.ofNat (4 * layout.site.stackArgs.toNat))])

private theorem Head.Lays.storesAt {head : Head} {snapshot : Snapshot} {layout : SiteLayout}
    (h : head.Lays snapshot layout) :
    head.StoresAt head.flagAddress layout := by
  obtain ⟨part, -, hlabel, hin⟩ := h.wrapper
  obtain ⟨raise, lower, hbytes, hraise, hlower⟩ := exists_addTarget part layout.site layout.copy
  have hflag : head.flagAddress = part.base := (UInt32.add_zero _).trans hin.base
  have hprefix : part.bytes ++ (raise ++ lower) <+: head.code.bytes := by
    rw [← List.append_assoc, ← hbytes]
    exact hin.bytes
  obtain ⟨rest, hrest⟩ := hprefix
  have hdrop : head.code.bytes.drop layout.wrapper = raise ++ lower ++ rest := by
    rw [← hrest, ← hlabel, Code.size, List.append_assoc, List.drop_left]
  have hreads := (hraise.append hlower).sweep?
  rw [← hflag, List.append_assoc] at hreads
  refine ⟨raise ++ lower, _, ?_, hreads⟩
  rw [hdrop]
  exact List.prefix_append _ _

/-- Every site has a wrapper in the block, and each of them stores at the address of the flag. -/
private theorem Head.stores_placed (build : Build) (moduleBase base : UInt32) :
    (Head.placed (build.snapshots moduleBase) base).sites.map (·.site) = Site.all ∧
      ∀ layout ∈ (Head.placed (build.snapshots moduleBase) base).sites,
        (Head.placed (build.snapshots moduleBase) base).StoresAt
          (Head.placed (build.snapshots moduleBase) base).flagAddress layout := by
  have hlays := Head.lays_buildAt base (build.snapshots moduleBase)
  rw [← Head.moveTo_build (build.fit_snapshots moduleBase)] at hlays
  have hsites : ∀ {snapshots : List Snapshot} {layouts : List SiteLayout} {head : Head},
      List.Forall₂ head.Lays snapshots layouts →
      layouts.map (·.site) = snapshots.map (·.site) ∧ ∀ layout ∈ layouts, head.StoresAt head.flagAddress layout := by
    intro snapshots layouts head hall
    induction hall with
    | nil => exact ⟨rfl, nofun⟩
    | cons hone _ ih =>
      refine ⟨?_, List.forall_mem_cons.2 ⟨hone.storesAt, ih.2⟩⟩
      rw [List.map_cons, List.map_cons, hone.site, ih.1]
  obtain ⟨hmap, hstores⟩ := hsites hlays
  refine ⟨hmap.trans ?_, hstores⟩
  rw [Build.snapshots, List.map_map]
  exact List.map_id _

/-! ### Accesses that stay on the list -/

namespace Journal

variable {σ π : Type}

/-- A session that begins has written its block. -/
private theorem ensures_attach_writes (inner : Platform σ π) (candidate : Candidate π) :
    Attempt.Ensures (fun _ => True) ((platform inner).attach candidate)
      (fun session s => ∃ base, session = Session.start candidate base ∧
        .write base (Head.placed candidate.snapshots base).code.bytes (.ok ()) ∈ s.accesses) fun _ => True := by
  have hkept : ∀ base, (platform inner).Confined candidate.process fun s =>
      .write base (Head.placed candidate.snapshots base).code.bytes (.ok ()) ∈ s.accesses :=
    fun base => @confined_growing _ _ (.write base (Head.placed candidate.snapshots base).code.bytes (.ok ()) ∈ ·)
      (fun _ _ hwritten => List.mem_append_left _ hwritten) inner candidate.process
  refine (Platform.ensures_attach (fun _ _ => True) (fun _ _ => True)
    (fun base _ s => .write base (Head.placed candidate.snapshots base).code.bytes (.ok ()) ∈ s.accesses)
    (fun _ _ _ => True) .trivial (fun base => ?_) (fun _ _ _ _ => trivial) (fun _ => .trivial)
    (fun base _ _ _ _ => ((hkept base).write _ _).failed_mono fun _ _ => trivial)
    (fun _ _ _ _ _ _ _ _ => trivial) (fun _ _ _ _ _ => .trivial) .trivial).mono (fun _ hs => hs)
    (fun _ _ hs => hs) fun _ hs => hs
  exact @ensures_attempted _ _ (.write base (Head.placed candidate.snapshots base).code.bytes) _ (fun _ _ => True)
    (fun _ accesses _ => .write base (Head.placed candidate.snapshots base).code.bytes (.ok ()) ∈ accesses)
    (fun _ _ => True) fun accesses =>
      Attempt.Ensures.trivial.ends_mono (fun _ _ _ => List.mem_append_right _ (List.mem_singleton_self _))
        fun _ _ _ => trivial

end Journal

/-! ### Calls that begin and end sessions -/

private theorem Action.Erases.ensures {σ τ α : Type} {erase : τ → σ} {action : Action τ α} {action' : Action σ α}
    {pre : σ → Prop} {post : α → σ → Prop} (h : Action.Erases erase action action')
    (hensures : Action.Ensures pre action' post) :
    Action.Ensures (fun s => pre (erase s)) action fun a s => post a (erase s) := by
  intro s hs
  have hresult := hensures ⟨erase s.world, s.log⟩ hs
  rw [h s] at hresult
  exact hresult

namespace Call

variable {σ π : Type} {platform : Platform σ π} {call : Call σ π}

private theorem config_after (call : Call σ π) : (call.after platform).config = call.engine.config := by
  obtain ⟨engine, request, state⟩ := call
  cases request with
  | shutdown =>
    cases hsession : engine.session with
    | none => simp only [after, answer, Engine.shutdown, hsession, Action.pure_apply]
    | some session => simp only [after, answer, Engine.shutdown, hsession, Action.bind_apply, Action.pure_apply]
  | update =>
    cases hsession : engine.session with
    | some session =>
      simp only [after, answer, Engine.update, hsession, Action.bind_apply]
      cases (platform.poll session state).1.failure <;> rfl
    | none =>
      have hfind : Action.Ensures (fun _ => True) (platform.findTarget engine.config.processName) fun candidate? _ =>
          (candidate? = none → engine.config = engine.config) ∧ ∀ candidate ∈ candidate?, True :=
        Action.Ensures.trivial.post_mono fun _ _ _ => ⟨fun _ => rfl, fun _ _ => trivial⟩
      have htry : Action.Ensures (fun _ => True) (engine.tryAttach platform)
          fun engine' _ => engine'.config = engine.config :=
        Engine.ensures_tryAttach hfind fun _ => Attempt.Ensures.trivial.ends_mono (fun _ _ _ => rfl)
          fun _ _ => rfl
      simp only [after, answer, Engine.update, hsession, Action.bind_apply, Action.pure_apply]
      exact htry state True.intro

/-- Nothing of a session is left in an engine after it. -/
private theorem after_of_detached (h : (call.after platform).isAttached = false) :
    call.after platform = { config := call.engine.config } := by
  have hconfig : (call.after platform).config = call.engine.config := call.config_after
  generalize call.after platform = later at h hconfig ⊢
  obtain ⟨config, session⟩ := later
  obtain rfl : config = call.engine.config := hconfig
  obtain rfl : session = none := by simpa [Engine.isAttached] using h
  rfl

end Call

namespace Engine

variable {σ π : Type} {platform : Platform σ π} {engine : Engine π}

/-- What comes after a call is a run of the engine that the call has left. -/
private theorem calls_suffix {turns : List (Request × Traced σ)} {before rest : List (Call σ π)} {call : Call σ π}
    (h : engine.calls platform turns = before ++ call :: rest) :
    call.engine.config = engine.config ∧ ∃ later, rest = (call.after platform).calls platform later := by
  induction before generalizing engine turns with
  | nil =>
    cases turns with
    | nil => cases h
    | cons turn later =>
      obtain ⟨rfl, rfl⟩ := List.cons.inj h
      exact ⟨rfl, later, rfl⟩
  | cons first before ih =>
    cases turns with
    | nil => cases h
    | cons turn later =>
      obtain ⟨rfl, htail⟩ := List.cons.inj h
      obtain ⟨hconfig, hlater⟩ := ih htail
      exact ⟨hconfig.trans (Call.config_after _), hlater⟩

end Engine

namespace InMemory

/-- The session that a call begins belongs to a build, and its block was written as it was assembled. -/
private theorem attaching_writes {call : Call (Faulty World) Handle} {session : Session Handle}
    (h : call.engine.session = none) (hafter : (call.after processes).session = some session) :
    session.snapshots = session.build.snapshots session.moduleBase ∧
      session.flag = (Head.placed session.snapshots session.head).flagAddress ∧
      .write session.head (Head.placed session.snapshots session.head).code.bytes (.ok ()) ∈
        call.accesses processes := by
  rw [Call.after, call.answer_eq] at hafter
  obtain ⟨engine, request, state⟩ := call
  replace h : engine.session = none := h
  cases request with
  | shutdown =>
    simp only [Call.journaled, Call.answer, Engine.shutdown, h, Action.pure_apply] at hafter
    cases hafter
  | update =>
    have hfind : Action.Ensures (fun s : Journal (Faulty World) => s.world.world = state.world.world)
        ((Journal.platform processes).findTarget engine.config.processName)
        fun found _ => ∀ candidate ∈ found, candidate.Verified state.world.world.sight ∧ True :=
      (((Journal.erases processes).findTarget _).ensures
        ((World.quiet state.world.world).faulty.ensures_findTarget (fun _ hs => hs) _)).post_mono
        fun _ _ hs candidate hcandidate => ⟨hs.1 candidate hcandidate, True.intro⟩
    let written (engine' : Engine Handle) (s : Journal (Faulty World)) : Prop := ∀ session ∈ engine'.session,
      session.snapshots = session.build.snapshots session.moduleBase ∧
        session.flag = (Head.placed session.snapshots session.head).flagAddress ∧
        .write session.head (Head.placed session.snapshots session.head).code.bytes (.ok ()) ∈ s.accesses
    have hstays : ∀ s, written engine s := fun _ session hsession => absurd (h ▸ hsession) (Option.not_mem_none session)
    have htry : Action.Ensures (fun s : Journal (Faulty World) => s.world.world = state.world.world)
        (engine.tryAttach (Journal.platform processes)) written := by
      refine Engine.ensures_tryAttach (hfind.post_mono fun _ s hs => ⟨fun _ => hstays s, hs⟩) fun candidate =>
        Action.Ensures.of_imp fun hverified => ?_
      refine (Journal.ensures_attach_writes processes candidate).ends_mono ?_ fun s _ => hstays s
      rintro _ s ⟨base, rfl, hwritten⟩ _ ⟨⟩
      exact ⟨hverified.snapshots, rfl, hwritten⟩
    simp only [Call.accesses, Call.journaled, Call.answer, Engine.update, h, Action.bind_apply,
      Action.pure_apply] at hafter ⊢
    exact htry (Journal.start state) rfl session hafter

/-- A session in memory takes in what the two bytes are. -/
private theorem poll_tracks_memory {call : Call (Faulty World) Handle} {session : Session Handle}
    {last : Option Reading} (h : call.engine.session = some session) (hholds : session.Holds last)
    (hattached : (call.after processes).isAttached = true) :
    ∃ loading modal,
      (call.state.world.world.target session.process.slot).peek? session.flag 1 = some [loading] ∧
      (call.state.world.world.target session.process.slot).peek? (session.moduleBase + session.build.modal) 1 =
        some [modal] ∧
      (call.answer processes).2.world.world = call.state.world.world ∧
      call.accesses processes = session.looks [loading] [modal] ∧
      (call.after processes).session = some (session.holding (some (loading, modal))) := by
  have hreadable := (World.quiet call.state.world.world).faulty.readable session.process
  obtain ⟨loading, modal, hlooks, ⟨hloading, hmodal, hworld⟩, hafter, -⟩ :=
    Call.poll_spec h hholds hreadable rfl hattached
  obtain ⟨loading, rfl⟩ := List.length_eq_one_iff.1 (Target.length_of_peek? hloading)
  obtain ⟨modal, rfl⟩ := List.length_eq_one_iff.1 (Target.length_of_peek? hmodal)
  exact ⟨loading, modal, hloading, hmodal, hworld, hlooks, hafter⟩

/-- **The signal tracks the memory.**

* At every moment of a session the flag is the place where the wrappers of its block store, and the call that began
  the session has written this block. If a poll does not end the session, the signal afterwards is that of the two
  bytes which lie at the address of the flag and at that of the modal flag while it runs.
* When a session has ended, the signal is off, and what follows is a run of a new engine. -/
theorem signal_tracks_memory (config : EngineConfig) (turns : List (Request × Traced (Faulty World))) :
    (∀ before call rest session, Engine.calls processes { config } turns = before ++ call :: rest →
      call.engine.session = some session →
      (∃ earlier first polls, before = earlier ++ first :: polls ∧ Engine.IsSession processes (first :: polls) ∧
        let head := Head.placed session.snapshots session.head
        .write session.head head.code.bytes (.ok ()) ∈ first.accesses processes ∧
          head.sites.map (·.site) = Site.all ∧ ∀ layout ∈ head.sites, head.StoresAt session.flag layout) ∧
      ((call.after processes).isAttached = true →
        let process := call.state.world.world.target session.process.slot
        ∃ loading modal, process.peek? session.flag 1 = some [loading] ∧
          process.peek? (session.moduleBase + session.build.modal) 1 = some [modal] ∧
          (call.answer processes).2.world.world = call.state.world.world ∧
          call.accesses processes = session.looks [loading] [modal] ∧
          (call.after processes).isLoading = isLoading loading modal)) ∧
    (∀ before call rest, Engine.calls processes { config } turns = before ++ call :: rest →
      (call.after processes).isAttached = false →
      (call.after processes).isLoading = false ∧ ∃ later, rest = Engine.calls processes { config } later) := by
  refine ⟨?_, ?_⟩
  · intro before call rest session hsplit hsession
    have hlinked := Engine.linked_calls processes { config } turns
    rw [hsplit] at hlinked
    obtain ⟨hbefore, hcall, -⟩ := hlinked.append
    have hattached : (Engine.afterAll processes { config } before).isAttached = true := by
      rw [← hcall, Engine.isAttached, hsession]
      rfl
    obtain ⟨earlier, first, polls, rfl, hcalls⟩ := hbefore.exists_session rfl hattached
    obtain ⟨-, ⟨begun, hbegun, hpresent⟩, -⟩ := hbefore.append.2.holds_session hcalls
    -- the session is the one that the first call began, with the last reading
    rw [hcall, Engine.afterAll, List.foldl_append] at hsession
    obtain rfl := Option.some.inj (hsession.symm.trans hpresent)
    have hnone : first.engine.session = none := by simpa [Engine.isAttached] using hcalls.1
    obtain ⟨hsnapshots, hflag, hwritten⟩ := attaching_writes hnone hbegun
    refine ⟨⟨earlier, first, polls, rfl, hcalls, hwritten, ?_⟩, fun hafter => ?_⟩
    · show (Head.placed begun.snapshots begun.head).sites.map (·.site) = Site.all ∧
        ∀ layout ∈ (Head.placed begun.snapshots begun.head).sites,
          (Head.placed begun.snapshots begun.head).StoresAt begun.flag layout
      rw [hflag, hsnapshots]
      exact Head.stores_placed begun.build begun.moduleBase begun.head
    · have hengine : call.engine.session =
          some (begun.holding (Engine.readings processes (first :: polls)).getLast?) := by
        rw [hcall, Engine.afterAll, List.foldl_append]
        exact hsession
      obtain ⟨loading, modal, hloading, hmodal, hworld, hlooks, hlast⟩ :=
        poll_tracks_memory hengine (begun.holds_holding _) hafter
      refine ⟨loading, modal, hloading, hmodal, hworld, hlooks, ?_⟩
      rw [Engine.isLoading, hlast]
      rfl
  · intro before call rest hsplit hdetached
    obtain ⟨hconfig, later, hrest⟩ := Engine.calls_suffix hsplit
    refine ⟨Engine.isLoading_of_detached hdetached, later, ?_⟩
    rw [hrest, Call.after_of_detached hdetached, hconfig]

open Visit in
/-- A modal screen that is up during a poll counts with an ambiguous flag, whatever the readings before were. -/
theorem signal_tracks_memory_interrupted :
    (interrupted.target 0).peek? 0x1000000 1 = some [Flag.ambiguous] ∧
      (interrupted.target 0).peek? 0x6622B0 1 = some [1] ∧
      ((Call.mk interrupted.engine .update interrupted.state).after processes).isAttached = true ∧
      ((Call.mk interrupted.engine .update interrupted.state).after processes).isLoading =
        isLoading Flag.ambiguous 1 := by
  have hloading : (interrupted.target 0).peek? 0x1000000 1 = some [Flag.ambiguous] := by decide +kernel
  have hmodal : (interrupted.target 0).peek? 0x6622B0 1 = some [1] := by decide +kernel
  have hplaces : (Call.mk interrupted.engine .update interrupted.state).engine.session.map
      (fun session => (session.process.slot, session.flag, session.moduleBase + session.build.modal)) =
        some (0, 0x1000000, 0x6622B0) := by decide +kernel
  obtain ⟨session, hsession, hplaces⟩ := Option.map_eq_some_iff.1 hplaces
  simp only [Prod.mk.injEq] at hplaces
  obtain ⟨hslot, hflag, haddress⟩ := hplaces
  -- what is found at the two places is what the poll has read
  obtain ⟨-, hpoll⟩ := (signal_tracks_memory {} _).1 _ _ _ session calls_interrupted hsession
  obtain ⟨loading, modal, hreadLoading, hreadModal, -, -, hsignal⟩ := hpoll isAttached_interrupted
  rw [hslot, hflag] at hreadLoading
  rw [hslot, haddress] at hreadModal
  obtain rfl : Flag.ambiguous = loading :=
    (List.cons.inj (Option.some.inj (hloading.symm.trans hreadLoading))).1
  obtain rfl : 1 = modal := (List.cons.inj (Option.some.inj (hmodal.symm.trans hreadModal))).1
  exact ⟨hloading, hmodal, isAttached_interrupted, hsignal⟩

end InMemory

end LoadRemover
