import LoadRemover.Proofs.Runs

/-!
# One owner for each process

Nothing but the code at the sites tells whether a process is taken: an engine attaches only where all of it is as the
build has it, and an attached engine leaves none of it so. The invariant is `Scene.Owned`. As long as an engine is
attached to a process, all sites of this process are changed, and it is the only engine that is attached to it; so a
call reaches no process but that of its own engine, or one that nobody owns and that is intact (`Turn`).

What an engine leaves changed behind is `Abandoned`: it stays as it is, and nobody attaches to it again.
-/

namespace LoadRemover

open InMemory

def Engine.IsAttachedTo (engine : Engine Handle) (slot : Nat) : Prop :=
  ∃ session ∈ engine.session, session.process.slot = slot

namespace InMemory

variable {origins : List Target} {start : World}

/-! ### What a call does -/

/-- The process is one that an engine would attach to. -/
def World.Accepts (w : World) (slot : Nat) : Prop :=
  ∃ candidate : Candidate Handle, candidate.process.slot = slot ∧ candidate.Verified w.sight

/-- What a call did to the processes, and to what its engine is attached to. -/
structure Turn (origins : List Target) (start : World) (engine : Engine Handle) (request : Request)
    (engine' : Engine Handle) (w : World) : Prop where
  step : ∀ slot, (start.target slot).Step (w.target slot)
  others : ∀ slot, ¬ (request = .shutdown ∧ engine.IsAttachedTo slot) → ¬ (engine.session = none ∧ start.Accepts slot) →
    w.target slot = start.target slot
  ended : request = .shutdown → engine'.session = none
  attached : ∀ session ∈ engine'.session, engine.IsAttachedTo session.process.slot ∨
    engine.session = none ∧ ∃ candidate base, candidate.Verified start.sight ∧ session = Session.start candidate base ∧
      (beginning origins session.process.slot).Changed (fun _ => True) (w.target session.process.slot)

theorem World.confined (start : World) (handle : Handle) :
    World.platform.Confined handle fun w => ∀ slot ≠ handle.slot, w.target slot = start.target slot := by
  have haccess : ∀ {α : Type} (f : Target → Except Failure α × Target),
      Attempt.Ensures (fun w : World => ∀ slot ≠ handle.slot, w.target slot = start.target slot)
        (World.platform.onTarget handle f) (fun _ w => ∀ slot ≠ handle.slot, w.target slot = start.target slot)
        fun w => ∀ slot ≠ handle.slot, w.target slot = start.target slot := by
    intro α f
    refine Attempt.Ensures.onWorld fun w hw => ?_
    have hset : ∀ slot ≠ handle.slot,
        (w.setTarget handle.slot (f (w.target handle.slot)).2).target slot = start.target slot := by
      intro slot hslot
      rw [World.target_setTarget, if_neg fun h => hslot h.1]
      exact hw slot hslot
    cases (f (w.target handle.slot)).1 <;> exact hset
  exact ⟨Action.Ensures.pure fun _ hw => hw, fun _ hs => hs, fun _ _ => haccess _, fun _ => haccess _,
    fun _ => haccess _⟩

section Calls

variable (hstart : start.Kept origins start)
include hstart

omit hstart in
private theorem At.confined {slot : Nat} {s : Recorded (Faulty World)} (h : At origins start s) :
    ∀ other ≠ slot, s.world.world.target other = start.target other := by
  intro other _
  rw [h.1]

omit hstart in
private theorem At.turn {engine engine' : Engine Handle} {request : Request} {s : Recorded (Faulty World)}
    (h : At origins start s) (hended : request = .shutdown → engine'.session = none)
    (hattached : ∀ session ∈ engine'.session, engine.IsAttachedTo session.process.slot) :
    Turn origins start engine request engine' s.world.world := by
  rw [h.1]
  exact ⟨fun _ => .refl _, fun _ _ _ => rfl, hended, fun session hsession => .inl (hattached session hsession)⟩

private theorem turn_tryAttach {engine : Engine Handle} (hnone : engine.session = none) :
    Action.Ensures (At origins start) (engine.tryAttach observed) fun engine' s =>
      Turn origins start engine .update engine' s.world.world := by
  refine (quiet_observed hstart).ensures_tryAttach (fun _ hs => hs) (fun s hs => hs.turn nofun ?_)
    fun candidate hverified => ?_
  · rw [hnone]
    nofun
  obtain ⟨hbase, hintact⟩ := intact_of_verified hstart hverified
  have haccepts : start.Accepts candidate.process.slot := ⟨candidate, rfl, hverified⟩
  have hconfined := (World.confined start candidate.process).faulty.recorded.ensures_attach
  obtain ⟨process, build, moduleBase, snapshots⟩ := candidate
  obtain rfl : snapshots = build.snapshots moduleBase := hverified.snapshots
  have hothers : ∀ w : World, (∀ other ≠ process.slot, w.target other = start.target other) →
      ∀ slot, ¬ (engine.session = none ∧ start.Accepts slot) → w.target slot = start.target slot := by
    intro w hw slot hslot
    refine hw slot fun hsame => hslot ⟨hnone, ?_⟩
    rw [hsame]
    exact haccepts
  refine ((ensures_attach hverified.known hbase).and hconfined).mono
    (fun s hs => ⟨At.safeBut hstart hs hintact, hs.confined⟩) ?_ fun s hs => ?_
  · rintro session s ⟨⟨⟨base, rfl⟩, ⟨hkept, -, hchanged⟩, -⟩, -, hconfined⟩
    refine ⟨hkept.step, fun slot _ => hothers _ hconfined slot, nofun, ?_⟩
    rintro _ ⟨⟩
    exact .inr ⟨hnone, _, base, hverified, rfl, hchanged⟩
  · refine ⟨hs.1.1.step, fun slot _ => hothers _ hs.2 slot, nofun, ?_⟩
    rw [hnone]
    nofun

private theorem turn_update (engine : Engine Handle) :
    Action.Ensures (At origins start) (engine.update observed) fun result s =>
      Turn origins start engine .update result.1 s.world.world := by
  refine @Platform.Quiet.ensures_update _ _ _ _ _ _ (quiet_observed hstart) (fun _ hs => hs) engine
    (fun engine' s => Turn origins start engine .update engine' s.world.world) (turn_tryAttach hstart) ?_
    fun _ _ _ hs => hs.turn nofun nofun
  intro session session' s hsession hsame hs
  refine hs.turn nofun ?_
  rintro _ ⟨⟩
  exact ⟨session, hsession, congrArg Handle.slot hsame.process.symm⟩

private theorem turn_shutdown {engine : Engine Handle}
    (hengine : ∀ session ∈ engine.session, session.Genuine origins start) :
    Action.Ensures (At origins start) (engine.shutdown observed) fun result s =>
      Turn origins start engine .shutdown result.1 s.world.world := by
  unfold Engine.shutdown
  cases hsession : engine.session with
  | none =>
    refine Action.Ensures.pure fun s hs => hs.turn (fun _ => hsession) ?_
    rw [hsession]
    nofun
  | some session =>
    have hrestore := ((ensures_restore hstart (hengine session hsession)).and
      (World.confined start session.process).faulty.recorded.ensures_restore).mono
      (fun s hs => ⟨hs, hs.confined⟩) fun _ _ h => h
    refine Action.Ensures.bind hrestore fun _ => Action.Ensures.pure fun s hs => ?_
    refine ⟨hs.1.1.step, fun slot hslot _ => hs.2 slot fun hsame => hslot ⟨rfl, session, hsession, hsame.symm⟩,
      fun _ => rfl, nofun⟩

/-- An accepted process is intact, so it is not one that has changed. -/
private theorem World.Accepts.intact {slot : Nat} (h : start.Accepts slot) (hfits : (start.target slot).Fits)
    (site : Site) :
    (beginning origins slot).Intact (start.target slot) site := by
  obtain ⟨candidate, rfl, hverified⟩ := h
  exact ((intact_of_verified hstart hverified).2 hfits).2 site id

end Calls

namespace Scene

variable {scene scene' : Scene} {i : Nat} {engine : Engine Handle} {request : Request} {slot : Nat}

private theorem Safe.turn (h : scene.Safe) (hengine : scene.engines[i]? = some engine) (request : Request) :
    ∃ engine', (scene.answer i engine request).engines = scene.engines.set i engine' ∧
      Turn scene.origins scene.now engine request engine' (scene.answer i engine request).now := by
  have hgenuine := h.genuine engine (List.mem_of_getElem? hengine)
  let call : Call (Recorded (Faulty World)) Handle := ⟨engine, request, scene.state⟩
  have hat : At scene.origins scene.now scene.state.world := ⟨rfl, h.past⟩
  refine ⟨call.after observed, rfl, ?_⟩
  cases request with
  | update => exact turn_update h.kept engine scene.state hat
  | shutdown => exact turn_shutdown h.kept hgenuine scene.state hat

/-! ### Owners -/

/-- Whoever is attached to a process has changed all of its sites, and is the only one who is attached to it. -/
structure Owned (scene : Scene) : Prop where
  safe : scene.Safe
  changed : ∀ (i : Nat) (engine : Engine Handle) (slot : Nat),
    scene.engines[i]? = some engine → engine.IsAttachedTo slot →
    (beginning scene.origins slot).Changed (fun _ => True) (scene.now.target slot)
  single : ∀ (i j : Nat) (engine engine' : Engine Handle) (slot : Nat),
    scene.engines[i]? = some engine → scene.engines[j]? = some engine' →
    engine.IsAttachedTo slot → engine'.IsAttachedTo slot → (scene.now.target slot).Fits → i = j

/-- What is accepted has no owner. -/
private theorem Owned.not_attached (h : scene.Owned) (hengine : scene.engines[i]? = some engine)
    (hfits : (scene.now.target slot).Fits) (haccepts : scene.now.Accepts slot) : ¬ engine.IsAttachedTo slot :=
  fun hattached => h.changed i engine slot hengine hattached hfits .game trivial
    (haccepts.intact h.safe.kept hfits .game)

private theorem Owned.slot_lt (h : scene.Owned) (hengine : scene.engines[i]? = some engine)
    (hattached : engine.IsAttachedTo slot) :
    slot < scene.origins.length := by
  obtain ⟨session, hsession, rfl⟩ := hattached
  exact (h.safe.genuine engine (List.mem_of_getElem? hengine) session hsession).slot_lt h.safe.kept.length

private theorem getElem?_set_cases {α : Type} {xs : List α} {i j : Nat} {x y : α} (h : (xs.set i x)[j]? = some y) :
    j = i ∧ y = x ∨ j ≠ i ∧ xs[j]? = some y := by
  rw [List.getElem?_set] at h
  by_cases hij : i = j
  · rw [if_pos hij] at h
    split at h
    · exact .inl ⟨hij.symm, (Option.some.inj h).symm⟩
    · cases h
  · rw [if_neg hij] at h
    exact .inr ⟨Ne.symm hij, h⟩

private theorem Owned.answer (h : scene.Owned) (hengine : scene.engines[i]? = some engine) (request : Request) :
    (scene.answer i engine request).Owned := by
  have hsafe := h.safe.answer hengine request
  obtain ⟨engine', hengines, hturn⟩ := h.safe.turn hengine request
  have horigins : (scene.answer i engine request).origins = scene.origins := rfl
  -- a process of another engine stays as it is
  have hothers : ∀ (j : Nat) (other : Engine Handle) (slot : Nat),
      j ≠ i → scene.engines[j]? = some other → other.IsAttachedTo slot →
      (scene.now.target slot).Fits → (scene.answer i engine request).now.target slot = scene.now.target slot := by
    intro j other slot hne hother hattached hfits
    refine hturn.others slot (fun ⟨_, hown⟩ => hne ?_) fun ⟨_, haccepts⟩ => ?_
    · exact h.single j i other engine slot hother hengine hattached hown hfits
    · exact h.not_attached hother hfits haccepts hattached
  -- a process to which another engine is attached is no other's
  have hexclusive : ∀ (j : Nat) (other : Engine Handle) (slot : Nat),
      j ≠ i → scene.engines[j]? = some other → other.IsAttachedTo slot →
      engine'.IsAttachedTo slot → ¬ ((scene.answer i engine request).now.target slot).Fits := by
    rintro j other slot hne hother hattached ⟨session, hsession, rfl⟩ hfits'
    have hfits := hfits'.of_step (hturn.step session.process.slot)
    rcases hturn.attached session hsession with hown | ⟨-, candidate, base, hverified, hstart, -⟩
    · exact hne (h.single j i other engine _ hother hengine hattached hown hfits)
    · exact h.not_attached hother hfits ⟨candidate, by rw [hstart]; rfl, hverified⟩ hattached
  refine ⟨hsafe, ?_, ?_⟩
  · intro j other slot hother hattached hfits'
    rw [hengines] at hother
    have hfits := hfits'.of_step (hturn.step slot)
    rcases getElem?_set_cases hother with ⟨rfl, rfl⟩ | ⟨hne, hother⟩
    · obtain ⟨session, hsession, rfl⟩ := hattached
      rcases hturn.attached session hsession with hown | ⟨-, -, -, -, -, hchanged⟩
      · have hsame : (scene.answer j engine request).now.target session.process.slot =
            scene.now.target session.process.slot := by
          refine hturn.others _ (fun ⟨hended, _⟩ => ?_) fun ⟨hnone, _⟩ => ?_
          · rw [hturn.ended hended] at hsession
            cases hsession
          · obtain ⟨old, hold, -⟩ := hown
            rw [hnone] at hold
            cases hold
        rw [horigins, hsame]
        exact h.changed j engine _ hengine hown hfits
      · exact hchanged hfits'
    · rw [horigins, hothers j other slot hne hother hattached hfits]
      exact h.changed j other slot hother hattached hfits
  · intro j k other other' slot hj hk hattached hattached' hfits'
    rw [hengines] at hj hk
    have hfits := hfits'.of_step (hturn.step slot)
    rcases getElem?_set_cases hj with ⟨rfl, rfl⟩ | ⟨hne, hj'⟩ <;>
      rcases getElem?_set_cases hk with ⟨rfl, rfl⟩ | ⟨hne', hk'⟩
    · rfl
    · exact (hexclusive k other' slot hne' hk' hattached' hattached hfits').elim
    · exact (hexclusive j other slot hne hj' hattached hattached' hfits').elim
    · exact h.single j k other other' slot hj' hk' hattached hattached' hfits

/-- Fewer engines own less. -/
private theorem Owned.eraseIdx (h : scene.Owned) (i : Nat) :
    Owned { scene with engines := scene.engines.eraseIdx i } := by
  refine ⟨⟨h.safe.kept, fun engine hengine => h.safe.genuine engine (List.mem_of_mem_eraseIdx hengine), h.safe.past⟩,
    ?_, ?_⟩
  · intro j engine slot hengine
    obtain ⟨k, hk⟩ := List.mem_iff_getElem?.1 (List.mem_of_mem_eraseIdx (List.mem_of_getElem? hengine))
    exact h.changed k engine slot hk
  · intro j k engine engine' slot hj hk hattached hattached' hfits
    simp only [List.getElem?_eraseIdx] at hj hk
    split at hj <;> split at hk
    all_goals
      have := h.single _ _ engine engine' slot hj hk hattached hattached' hfits
      omega

/-- Every step keeps a scene owned. -/
private theorem Owned.step (h : scene.Owned) (hstep : scene.Step scene') : scene'.Owned := by
  have hsafe := h.safe.step hstep
  cases hstep with
  | call i engine hengine request => exact h.answer hengine request
  | drop i engine hengine => exact (h.answer hengine .shutdown).eraseIdx i
  | create config =>
    have hold : ∀ (i : Nat) (engine : Engine Handle) (slot : Nat), (scene.create config).engines[i]? = some engine →
        engine.IsAttachedTo slot → scene.engines[i]? = some engine := by
      intro i engine slot hengine hattached
      rw [create, List.getElem?_append] at hengine
      split at hengine
      · exact hengine
      · -- the new engine is detached
        obtain rfl := List.mem_singleton.1 (List.mem_of_getElem? hengine)
        obtain ⟨session, hsession, -⟩ := hattached
        cases hsession
    refine ⟨hsafe, fun i engine slot hengine hattached => ?_,
      fun i j engine engine' slot hi hj hattached hattached' => ?_⟩
    · exact h.changed i engine slot (hold i engine slot hengine hattached) hattached
    · exact h.single i j engine engine' slot (hold i engine slot hi hattached) (hold j engine' slot hj hattached')
        hattached hattached'
  | launch target hfresh hidden =>
    have hsame : ∀ (i : Nat) (engine : Engine Handle) (slot : Nat),
        scene.engines[i]? = some engine → engine.IsAttachedTo slot →
        (scene.now.add target hidden).target slot = scene.now.target slot := by
      intro i engine slot hengine hattached
      refine World.target_add ?_ target hidden
      rw [h.safe.kept.length]
      exact h.slot_lt hengine hattached
    refine ⟨hsafe, fun i engine slot hengine hattached => ?_,
      fun i j engine engine' slot hi hj hattached hattached' => ?_⟩
    · have hbeginning : beginning (scene.origins ++ [target]) slot = beginning scene.origins slot :=
        beginning_append (h.slot_lt hengine hattached) target
      have := h.changed i engine slot hengine hattached
      rw [← hsame i engine slot hengine hattached, ← hbeginning] at this
      exact this
    · have := h.single i j engine engine' slot hi hj hattached hattached'
      rw [← hsame i engine slot hi hattached] at this
      exact this
  | drift world hdrift =>
    refine ⟨hsafe, fun i engine slot hengine hattached hfits' site _ => ?_,
      fun i j engine engine' slot hi hj hattached hattached' hfits' => ?_⟩
    · have hfits := hfits'.of_step (hdrift.target slot).shape.step
      have hentry := (h.safe.kept.sound slot).entry_of_drift (hdrift.target slot) hfits site
      have := h.changed i engine slot hengine hattached hfits site trivial
      unfold Target.Intact at this ⊢
      rw [← hentry] at this
      exact this
    · exact h.single i j engine engine' slot hi hj hattached hattached'
        (hfits'.of_step (hdrift.target slot).shape.step)

theorem Reachable.owned (h : scene.Reachable) : scene.Owned := by
  induction h with
  | refl => exact ⟨Reachable.safe .refl, nofun, nofun⟩
  | tail _ hstep ih => exact ih.step hstep

/-! ### Processes without an owner -/

/-- No engine is attached to the process, and not all of its sites are as in the beginning. -/
def Abandoned (scene : Scene) (slot : Nat) : Prop :=
  (∀ engine ∈ scene.engines, ¬ engine.IsAttachedTo slot) ∧
    ∃ site, ¬ (beginning scene.origins slot).Intact (scene.now.target slot) site

/-- The sites of the process and its blocks are as they were. -/
structure Stays (scene scene' : Scene) (slot : Nat) : Prop where
  entry : ∀ site, (scene'.now.target slot).entry site = (scene.now.target slot).entry site
  isAllocated : ∀ base, (scene'.now.target slot).isAllocated base = (scene.now.target slot).isAllocated base

private theorem Stays.of_target (h : scene'.now.target slot = scene.now.target slot) : scene.Stays scene' slot := by
  constructor <;> simp [h]

private theorem Stays.trans {scene'' : Scene} (h : scene.Stays scene' slot) (h' : scene'.Stays scene'' slot) :
    scene.Stays scene'' slot :=
  ⟨fun site => (h'.entry site).trans (h.entry site), fun base => (h'.isAllocated base).trans (h.isAllocated base)⟩

/-- There is such a process. -/
private theorem Abandoned.slot_lt (h : scene.Abandoned slot)
    (hlength : scene.now.targets.length = scene.origins.length) :
    slot < scene.origins.length := by
  by_contra hge
  obtain ⟨-, site, hsite⟩ := h
  refine hsite ?_
  unfold World.target beginning Target.Intact
  rw [List.getD_eq_getElem?_getD, List.getD_eq_getElem?_getD, List.getElem?_eq_none (by omega),
    List.getElem?_eq_none (by omega)]

private theorem Abandoned.of_stays (h : scene.Abandoned slot) (hstays : scene.Stays scene' slot)
    (hbeginning : beginning scene'.origins slot = beginning scene.origins slot)
    (hengines : ∀ engine ∈ scene'.engines, ¬ engine.IsAttachedTo slot) : scene'.Abandoned slot := by
  obtain ⟨-, site, hsite⟩ := h
  refine ⟨hengines, site, ?_⟩
  unfold Target.Intact at hsite ⊢
  rwa [hbeginning, hstays.entry]

private theorem Abandoned.answer (habandoned : scene.Abandoned slot) (h : scene.Owned)
    (hengine : scene.engines[i]? = some engine) (request : Request) (hfits : (scene.now.target slot).Fits) :
    (scene.answer i engine request).Abandoned slot ∧ scene.Stays (scene.answer i engine request) slot := by
  obtain ⟨engine', hengines, hturn⟩ := h.safe.turn hengine request
  have hfree := habandoned.1 engine (List.mem_of_getElem? hengine)
  -- nobody would attach to it
  have hrefused : ¬ scene.now.Accepts slot := by
    intro haccepts
    obtain ⟨-, site, hsite⟩ := habandoned
    exact hsite (haccepts.intact h.safe.kept hfits site)
  have hstays : scene.Stays (scene.answer i engine request) slot :=
    .of_target (hturn.others slot (fun hown => hfree hown.2) fun hnone => hrefused hnone.2)
  refine ⟨habandoned.of_stays hstays rfl fun other hother => ?_, hstays⟩
  rw [hengines] at hother
  rcases List.mem_or_eq_of_mem_set hother with hold | rfl
  · exact habandoned.1 other hold
  · rintro ⟨session, hsession, rfl⟩
    rcases hturn.attached session hsession with hown | ⟨-, candidate, base, hverified, hstart, -⟩
    · exact hfree hown
    · exact hrefused ⟨candidate, by rw [hstart]; rfl, hverified⟩

/-- Processes do not go, and one that fits has done so all the time. -/
private theorem Safe.fits_of_step (h : scene.Safe) (hstep : scene.Step scene') (hslot : slot < scene.origins.length) :
    slot < scene'.origins.length ∧ ((scene'.now.target slot).Fits → (scene.now.target slot).Fits) := by
  cases hstep with
  | call i engine hengine request =>
    obtain ⟨_, _, hturn⟩ := h.turn hengine request
    exact ⟨hslot, fun hfits' => hfits'.of_step (hturn.step slot)⟩
  | drop i engine hengine =>
    obtain ⟨_, _, hturn⟩ := h.turn hengine .shutdown
    exact ⟨hslot, fun hfits' => hfits'.of_step (hturn.step slot)⟩
  | create config => exact ⟨hslot, id⟩
  | launch target hfresh hidden =>
    have hsame : (scene.launch target hidden).now.target slot = scene.now.target slot :=
      World.target_add (by rw [h.kept.length]; exact hslot) target hidden
    rw [hsame]
    refine ⟨?_, id⟩
    simp only [launch, List.length_append]
    omega
  | drift world hdrift => exact ⟨hslot, fun hfits' => hfits'.of_step (hdrift.target slot).shape.step⟩

/-- Nobody attaches to a process that is abandoned, and it stays as it is. -/
private theorem Abandoned.step (habandoned : scene.Abandoned slot) (h : scene.Owned) (hstep : scene.Step scene')
    (hfits : (scene.now.target slot).Fits) : scene'.Abandoned slot ∧ scene.Stays scene' slot := by
  cases hstep with
  | call i engine hengine request => exact habandoned.answer h hengine request hfits
  | drop i engine hengine =>
    obtain ⟨habandoned', hstays⟩ := habandoned.answer h hengine .shutdown hfits
    exact ⟨⟨fun other hother => habandoned'.1 other (List.mem_of_mem_eraseIdx hother), habandoned'.2⟩,
      hstays.entry, hstays.isAllocated⟩
  | create config =>
    have hstays : scene.Stays (scene.create config) slot := .of_target rfl
    refine ⟨habandoned.of_stays hstays rfl fun other hother => ?_, hstays⟩
    rcases List.mem_append.1 hother with hold | hnew
    · exact habandoned.1 other hold
    · obtain rfl := List.mem_singleton.1 hnew
      rintro ⟨session, hsession, -⟩
      cases hsession
  | launch target hfresh hidden =>
    have hlt := habandoned.slot_lt h.safe.kept.length
    have hsame : (scene.launch target hidden).now.target slot = scene.now.target slot :=
      World.target_add (by rw [h.safe.kept.length]; exact hlt) target hidden
    exact ⟨habandoned.of_stays (.of_target hsame) (beginning_append hlt target) habandoned.1, .of_target hsame⟩
  | drift world hdrift =>
    have hstays : scene.Stays (scene.next world) slot :=
      ⟨(h.safe.kept.sound slot).entry_of_drift (hdrift.target slot) hfits, (hdrift.target slot).shape.isAllocated⟩
    exact ⟨habandoned.of_stays hstays rfl habandoned.1, hstays⟩

/-- The same over any number of steps. -/
private theorem Abandoned.later (habandoned : scene.Abandoned slot) (h : scene.Reachable)
    (hlater : Relation.ReflTransGen Step scene scene') (hfits' : (scene'.now.target slot).Fits) :
    scene'.Abandoned slot ∧ scene.Stays scene' slot := by
  have hall : slot < scene'.origins.length ∧
      ((scene'.now.target slot).Fits → scene'.Abandoned slot ∧ scene.Stays scene' slot) := by
    clear hfits'
    induction hlater with
    | refl => exact ⟨habandoned.slot_lt h.safe.kept.length, fun _ => ⟨habandoned, .of_target rfl⟩⟩
    | tail hmiddle hstep ih =>
      have howned := Reachable.owned (h.trans hmiddle)
      obtain ⟨hslot, hfits⟩ := howned.safe.fits_of_step hstep ih.1
      refine ⟨hslot, fun hfits' => ?_⟩
      obtain ⟨hmid, hstays⟩ := ih.2 (hfits hfits')
      obtain ⟨hlast, hstays'⟩ := hmid.step howned hstep (hfits hfits')
      exact ⟨hlast, hstays.trans hstays'⟩
  exact hall.2 hfits'

/-! ### Who owns a process -/

/-- Whoever attaches finds the code of the build at all sites of the process. -/
private theorem Safe.preamble_of_attaching (h : scene.Safe) (hengine : scene.engines[i]? = some engine)
    (hnone : engine.session = none) {engine' : Engine Handle} {session : Session Handle}
    (hengine' : (scene.answer i engine request).engines[i]? = some engine') (hsession : engine'.session = some session)
    (site : Site) :
    (scene.now.target session.process.slot).entry site =
        some (preamble site session.build session.moduleBase).bytes ∧
      ((scene.now.target session.process.slot).Fits →
        (beginning scene.origins session.process.slot).Intact (scene.now.target session.process.slot) site) := by
  obtain ⟨answered, hengines, hturn⟩ := h.turn hengine request
  rw [hengines] at hengine'
  rcases getElem?_set_cases hengine' with ⟨-, rfl⟩ | ⟨hne, -⟩
  · rcases hturn.attached session hsession with ⟨old, hold, -⟩ | ⟨-, candidate, base, hverified, rfl, -⟩
    · rw [hnone] at hold
      cases hold
    · refine ⟨entry_of_verified hverified site, fun hfits => ?_⟩
      exact World.Accepts.intact h.kept ⟨candidate, rfl, hverified⟩ hfits site
  · exact absurd rfl hne

/-- An engine that lets go of a process leaves it without an owner. -/
private theorem Owned.not_attached_of_detached (h : scene.Owned) (hengine : scene.engines[i]? = some engine)
    (hattached : engine.IsAttachedTo slot) (hfits : (scene.now.target slot).Fits) {engine' : Engine Handle}
    (hengine' : (scene.answer i engine request).engines[i]? = some engine') (hdetached : engine'.session = none) :
    ∀ other ∈ (scene.answer i engine request).engines, ¬ other.IsAttachedTo slot := by
  intro other hother hattached'
  obtain ⟨answered, hengines, -⟩ := h.safe.turn hengine request
  obtain ⟨j, hj⟩ := List.mem_iff_getElem?.1 hother
  have hnot : j ≠ i := by
    rintro rfl
    rw [hengine'] at hj
    obtain rfl := Option.some.inj hj
    obtain ⟨session, hsession, -⟩ := hattached'
    rw [hdetached] at hsession
    cases hsession
  rw [hengines] at hj
  rcases getElem?_set_cases hj with ⟨rfl, -⟩ | ⟨-, hold⟩
  · exact hnot rfl
  · exact hnot (h.single j i other engine slot hold hengine hattached' hattached hfits)

private theorem Owned.abandoned_of_lost (h : scene.Owned) (hengine : scene.engines[i]? = some engine)
    (hattached : engine.IsAttachedTo slot) (hfits : (scene.now.target slot).Fits) {engine' : Engine Handle}
    (hengine' : (scene.answer i engine .update).engines[i]? = some engine') (hdetached : engine'.session = none) :
    (scene.answer i engine .update).Abandoned slot ∧
      ∀ site, (beginning scene.origins slot).Redirected ((scene.answer i engine .update).now.target slot) site := by
  obtain ⟨answered, -, hturn⟩ := h.safe.turn hengine .update
  -- a poll only looks
  have hsame : (scene.answer i engine .update).now.target slot = scene.now.target slot := by
    refine hturn.others slot nofun fun ⟨hnone, _⟩ => ?_
    obtain ⟨session, hsession, -⟩ := hattached
    rw [hnone] at hsession
    cases hsession
  have hchanged := h.changed i engine slot hengine hattached hfits
  refine ⟨⟨h.not_attached_of_detached hengine hattached hfits hengine' hdetached, .game, ?_⟩, fun site => ?_⟩
  · rw [hsame]
    exact hchanged .game trivial
  · rw [hsame]
    exact ((h.safe.kept.sound slot).sites hfits site).resolve_left (hchanged site trivial)

/-- **One owner for each process.**

* Whoever attaches to a process finds all of its sites as they were in the beginning, with the code of the build.
* No two engines are attached to one process.
* A process that an engine loses in a poll has all of its sites redirected and no owner any more.
* A process that an engine has shut down has all of its sites as in the beginning, or it has no owner any more.
* Nobody ever attaches to a process again that has no owner and whose sites are not all as in the beginning. The sites
  and the blocks of such a process stay, and each site is as in the beginning or leads into one of the blocks. -/
theorem one_owner (h : scene.Reachable) :
    (∀ (i : Nat) (engine : Engine Handle) request engine' session, scene.engines[i]? = some engine →
      engine.session = none → (scene.answer i engine request).engines[i]? = some engine' →
      engine'.session = some session → ∀ site,
        (scene.now.target session.process.slot).entry site =
            some (preamble site session.build session.moduleBase).bytes ∧
          ((scene.now.target session.process.slot).Fits →
            (beginning scene.origins session.process.slot).Intact (scene.now.target session.process.slot) site)) ∧
    (∀ slot, (scene.now.target slot).Fits → ∀ (i j : Nat) (engine engine' : Engine Handle),
      scene.engines[i]? = some engine → scene.engines[j]? = some engine' → engine.IsAttachedTo slot →
      engine'.IsAttachedTo slot → i = j) ∧
    (∀ (i : Nat) (engine : Engine Handle) slot engine', scene.engines[i]? = some engine → engine.IsAttachedTo slot →
      (scene.now.target slot).Fits → (scene.answer i engine .update).engines[i]? = some engine' →
      engine'.session = none → (scene.answer i engine .update).Abandoned slot ∧
        ∀ site, (beginning scene.origins slot).Redirected ((scene.answer i engine .update).now.target slot) site) ∧
    (∀ (i : Nat) (engine : Engine Handle) slot, scene.engines[i]? = some engine → engine.IsAttachedTo slot →
      (scene.now.target slot).Fits → ∀ scene' ∈ [scene.answer i engine .shutdown, scene.drop i engine],
        (∀ site, (beginning scene.origins slot).Intact (scene'.now.target slot) site) ∨ scene'.Abandoned slot) ∧
    ∀ slot, scene.Abandoned slot → ∀ later, Relation.ReflTransGen Step scene later → (later.now.target slot).Fits →
      later.Abandoned slot ∧ scene.Stays later slot ∧
        ∀ site, (beginning later.origins slot).Intact (later.now.target slot) site ∨
          (beginning later.origins slot).Redirected (later.now.target slot) site := by
  have howned := h.owned
  refine ⟨?_, ?_, ?_, ?_, ?_⟩
  · intro i engine request engine' session hengine hnone hengine' hsession site
    exact howned.safe.preamble_of_attaching hengine hnone hengine' hsession site
  · intro slot hfits i j engine engine' hi hj hattached hattached'
    exact howned.single i j engine engine' slot hi hj hattached hattached' hfits
  · intro i engine slot engine' hengine hattached hfits hengine' hdetached
    exact howned.abandoned_of_lost hengine hattached hfits hengine' hdetached
  · intro i engine slot hengine hattached hfits scene' hscene'
    obtain ⟨engine', hengines, hturn⟩ := howned.safe.turn hengine .shutdown
    have hengine' : (scene.answer i engine .shutdown).engines[i]? = some engine' := by
      obtain ⟨hlt, -⟩ := List.getElem?_eq_some_iff.1 hengine
      rw [hengines, List.getElem?_set_self hlt]
    have hnobody := howned.not_attached_of_detached hengine hattached hfits hengine' (hturn.ended rfl)
    have hscene : scene'.now = (scene.answer i engine .shutdown).now ∧ scene'.origins = scene.origins ∧
        ∀ other ∈ scene'.engines, ¬ other.IsAttachedTo slot := by
      rcases List.mem_pair.1 hscene' with rfl | rfl
      · exact ⟨rfl, rfl, hnobody⟩
      · exact ⟨rfl, rfl, fun other hother => hnobody other (List.mem_of_mem_eraseIdx hother)⟩
    by_cases hall : ∀ site, (beginning scene.origins slot).Intact (scene'.now.target slot) site
    · exact .inl hall
    · obtain ⟨site, hsite⟩ := not_forall.1 hall
      rw [← hscene.2.1] at hsite
      exact .inr ⟨hscene.2.2, site, hsite⟩
  · intro slot habandoned later hlater hfits
    obtain ⟨habandoned', hstays⟩ := habandoned.later h hlater hfits
    exact ⟨habandoned', hstays, (Reachable.safe (h.trans hlater)).kept.sound slot |>.sites hfits⟩

/-- Another engine comes when a site was left redirected. -/
def secondComes : Scene := (halfRestored.create {}).answer 1 {} .update

private theorem abandoned_halfRestored : halfRestored.Abandoned 0 := by
  have hengines : ∀ attached ∈ halfRestored.engines.map (·.isAttached), attached = false := by decide +kernel
  have hchanged : (halfRestored.now.target 0).entry .game ≠ (beginning halfRestored.origins 0).entry .game := by
    decide +kernel
  refine ⟨?_, .game, hchanged⟩
  rintro engine hengine ⟨session, hsession, -⟩
  have := hengines _ (List.mem_map_of_mem hengine)
  rw [Engine.isAttached, hsession] at this
  cases this

/-- It does not get the process. The first site still leads into the block that was kept for it. -/
theorem one_owner_half_restored : halfRestored.Reachable ∧ secondComes.Abandoned 0 ∧
    (secondComes.now.target 0).isAllocated 0x1000000 = true ∧
    (secondComes.now.target 0).entry .game = (halfRestored.now.target 0).entry .game := by
  have hlater : Relation.ReflTransGen Step halfRestored secondComes :=
    (Relation.ReflTransGen.refl.tail (.create halfRestored {})).tail (.call _ 1 {} rfl .update)
  have hfits : (secondComes.now.target 0).Fits :=
    Target.fits_of_extents (by decide +kernel) (by decide +kernel) (by decide +kernel)
  obtain ⟨-, -, -, -, hstay⟩ := one_owner reachable_halfRestored
  obtain ⟨habandoned, hstays, -⟩ := hstay 0 abandoned_halfRestored secondComes hlater hfits
  have hblock : (halfRestored.now.target 0).isAllocated 0x1000000 = true := by decide +kernel
  exact ⟨reachable_halfRestored, habandoned, (hstays.isAllocated _).trans hblock, hstays.entry .game⟩

end Scene

end InMemory

end LoadRemover
