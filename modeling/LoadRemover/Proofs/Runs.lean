import Mathlib.Logic.Relation
import LoadRemover.Proofs.Erasing
import LoadRemover.Proofs.Safety

/-!
# Runs of engines

Any number of engines work on the processes of one world. A `Scene` is what there is at one moment of a run; its steps
are the calls of the engines, and what happens to the processes in between: they start and end, their flags change,
and failures are injected. The worlds are on record, so a run is seen operation by operation; a run goes as it would
without the record (`Scene.answer_unrecorded`).

In every scene that can be reached each site of each process is intact or redirected, at every moment so far
(`Scene.no_dangling_redirect`).
-/

namespace LoadRemover

namespace InMemory

/-! ### Looking at processes in memory -/

/-- What there is to be seen of the processes in a world. -/
def World.sight (w : World) : Sight Handle where
  is64Bit handle := (w.target handle.slot).is64Bit
  moduleBase handle := (w.target handle.slot).moduleBase
  read handle a n := (w.target handle.slot).peek? a n

theorem World.quiet (start : World) : World.platform.Quiet start.sight (· = start) (· = start) where
  processes := Attempt.Ensures.of_same fun _ => rfl
  openProcess _ := Attempt.Ensures.of_same fun _ => rfl
  close _ := Action.Ensures.pure fun _ hw => hw
  leave _ := Action.Ensures.pure fun _ hw => hw
  hasExited _ := by
    simp only [ite_self]
    exact fun _ hs => hs
  is64Bit handle := by
    refine Attempt.Ensures.look (fun w : World => .ok (w.target handle.slot).is64Bit) ?_ fun _ hw => hw
    rintro w rfl is64Bit his64Bit
    exact ⟨(Except.ok.inj his64Bit).symm, rfl⟩
  moduleBase handle := by
    refine Attempt.Ensures.look (fun w : World => let target := w.target handle.slot
      if target.exited then .error .exited else .ok target.moduleBase) ?_ fun _ hw => hw
    rintro w rfl base hbase
    simp only at hbase
    split at hbase
    · cases hbase
    · exact ⟨(Except.ok.inj hbase).symm, rfl⟩
  read handle a n := by
    refine Attempt.Ensures.look (fun w : World => (w.target handle.slot).read a n) ?_ fun _ hw => hw
    rintro w rfl bytes hread
    exact ⟨Target.peek?_of_read hread, rfl⟩

end InMemory

open InMemory

/-- The process of the session has the build of the session. -/
structure Session.Genuine (session : Session Handle) (origins : List Target) (w : World) : Prop where
  known : session.build ∈ Build.known
  snapshots : session.snapshots = session.build.snapshots (beginning origins session.process.slot).moduleBase
  own : (w.target session.process.slot).Fits → (beginning origins session.process.slot).Own session.build

namespace InMemory

variable {origins : List Target} {start : World}

/-- At its sites an accepted process holds the code of its build. -/
theorem entry_of_verified {candidate : Candidate Handle} (h : candidate.Verified start.sight) (site : Site) :
    (start.target candidate.process.slot).entry site =
      some (preamble site candidate.build candidate.moduleBase).bytes := by
  have hmem : ⟨site, preamble site candidate.build candidate.moduleBase⟩ ∈ candidate.snapshots := by
    rw [h.snapshots]
    exact candidate.build.mem_snapshots candidate.moduleBase site
  have hcode : (start.target candidate.process.slot).peek? _ _ = _ := (h.code _ hmem).2
  have hsize : (preamble site candidate.build candidate.moduleBase).bytes.length = 6 := size_preamble _ _ _
  have haddress : (preamble site candidate.build candidate.moduleBase).base =
      (start.target candidate.process.slot).siteAddress site := by
    rw [preamble_base, Build.offset_entry h.known, h.base]
    rfl
  rw [hsize, haddress] at hcode
  exact hcode

/-- An accepted process is untouched. -/
theorem intact_of_verified (hstart : start.Kept origins start) {candidate : Candidate Handle}
    (h : candidate.Verified start.sight) :
    candidate.moduleBase = (beginning origins candidate.process.slot).moduleBase ∧
      (beginning origins candidate.process.slot).IntactBut candidate.build (fun _ => False)
        (start.target candidate.process.slot) := by
  have hsound := hstart.sound candidate.process.slot
  have hbase : candidate.moduleBase = (beginning origins candidate.process.slot).moduleBase :=
    h.base.trans hsound.step.moduleBase
  refine ⟨hbase, fun hfits => ?_⟩
  have hentry := entry_of_verified h
  have hintact : ∀ site,
      (beginning origins candidate.process.slot).Intact (start.target candidate.process.slot) site := by
    intro site
    rcases hsound.sites hfits site with hintact | ⟨_, -, _, -, _, -, -, -, -, relative, first, sixth, -, hbytes, -⟩
    · exact hintact
    · -- a redirected site begins with a jump
      have hsame := Option.some.inj ((hentry site).symm.trans hbytes)
      exact absurd (by rw [hsame]; rfl) (head?_preamble site candidate.build candidate.moduleBase)
  refine ⟨fun site => ?_, fun site _ => hintact site⟩
  rw [← hbase, ← hentry site]
  exact (hintact site).symm

/-- All worlds so far are linked, and this is the world `start`. -/
def At (origins : List Target) (start : World) : Recorded (Faulty World) → Prop :=
  Recorded.Seen (fun s s' => s.world.Linked origins s'.world) fun s => s.world = start

/-- It is safe, and the session of the engine, if it has one, is genuine. -/
def Served (origins : List Target) (start : World) (engine : Engine Handle) : Recorded (Faulty World) → Prop :=
  Recorded.Seen (fun s s' => s.world.Linked origins s'.world) fun s => s.world.Kept origins start ∧
    ∀ session ∈ engine.session, session.Genuine origins s.world

private theorem Safe.served {engine : Engine Handle} {s : Recorded (Faulty World)} (h : Safe origins start s)
    (hnone : engine.session = none) : Served origins start engine s := by
  refine h.mono fun _ hkept => ⟨hkept, ?_⟩
  rw [hnone]
  nofun

section Calls

variable (hstart : start.Kept origins start)
include hstart

theorem quiet_observed : observed.Quiet start.sight (At origins start) (At origins start) :=
  (World.quiet start).faulty.recorded fun w w' hw hw' => by
    rw [hw, hw']
    exact hstart.linked

private theorem At.safe {s : Recorded (Faulty World)} (h : At origins start s) : Safe origins start s :=
  h.mono fun w hw => by
    rw [hw]
    exact hstart

theorem At.safeBut {slot : Nat} {build : Build} {sites : Site → Prop} {s : Recorded (Faulty World)}
    (h : At origins start s) (hintact : (beginning origins slot).IntactBut build sites (start.target slot)) :
    SafeBut origins start slot build sites s := by
  obtain ⟨rfl, hpast⟩ := h
  exact ⟨⟨hstart, hintact⟩, hpast⟩

private theorem ensures_tryAttach {engine : Engine Handle} (hnone : engine.session = none) :
    Action.Ensures (At origins start) (engine.tryAttach observed) fun engine' => Served origins start engine' := by
  refine (quiet_observed hstart).ensures_tryAttach (fun _ hs => hs) (fun _ hs => (At.safe hstart hs).served hnone)
    fun candidate hverified => ?_
  -- since its code was compared the process has not changed
  obtain ⟨hbase, hintact⟩ := intact_of_verified hstart hverified
  obtain ⟨process, build, moduleBase, snapshots⟩ := candidate
  obtain rfl : snapshots = build.snapshots moduleBase := hverified.snapshots
  refine (ensures_attach hverified.known hbase).mono (fun s hs => At.safeBut hstart hs hintact) ?_
    fun _ hs => hs.served hnone
  rintro _ s ⟨⟨base, rfl⟩, ⟨hkept, hown, -⟩, hpast⟩
  refine ⟨⟨hkept, ?_⟩, hpast⟩
  rintro _ ⟨⟩
  exact ⟨hverified.known, congrArg build.snapshots hbase, hown⟩

theorem ensures_update {engine : Engine Handle} (hengine : ∀ session ∈ engine.session, session.Genuine origins start) :
    Action.Ensures (At origins start) (engine.update observed) fun result => Served origins start result.1 := by
  refine (quiet_observed hstart).ensures_update (fun _ hs => hs) (ensures_tryAttach hstart) ?_
    fun _ _ _ hs => (At.safe hstart hs).served rfl
  rintro session session' s hsession hsame ⟨rfl, hpast⟩
  have hgenuine := hengine session hsession
  refine ⟨⟨hstart, ?_⟩, hpast⟩
  rintro _ ⟨⟩
  -- a poll changes what the session knows about the flags only
  refine ⟨?_, ?_, ?_⟩
  · rw [hsame.build]
    exact hgenuine.known
  · rw [hsame.snapshots, hsame.build, hsame.process]
    exact hgenuine.snapshots
  · rw [hsame.build, hsame.process]
    exact hgenuine.own

/-- Restoring starts from a process whose sites may all have changed. -/
theorem ensures_restore {session : Session Handle} (hgenuine : session.Genuine origins start) :
    Action.Ensures (At origins start) (observed.restore session) fun _ => Safe origins start := by
  have hrollback : Action.Ensures (At origins start)
      (observed.rollback session.process session.snapshots session.head) fun _ => Safe origins start := by
    rw [hgenuine.snapshots]
    refine (ensures_rollback hgenuine.known (List.Subset.refl _) session.head).mono
      (fun s hs => At.safeBut hstart hs fun hfits => ⟨hgenuine.own hfits, fun site hsite => ?_⟩) fun _ _ hs => hs
    exact absurd ⟨_, List.mem_map_of_mem site.mem_all, rfl⟩ hsite
  unfold Platform.restore
  refine Action.Ensures.bind ((quiet_observed hstart).ensures_hasExited (fun _ hs => hs) session.process)
    fun exited => ?_
  cases exited with
  | true => exact Action.Ensures.bind Action.Ensures.report fun _ =>
      ensures_close.mono (fun _ hs => At.safe hstart hs) fun _ _ hs => hs
  | false =>
    refine Action.Ensures.bind hrollback fun restored => ?_
    cases restored with
    | true => exact Action.Ensures.bind Action.Ensures.report fun _ => ensures_close
    | false => exact Action.Ensures.bind Action.Ensures.report fun _ => ensures_close

theorem ensures_shutdown {engine : Engine Handle}
    (hengine : ∀ session ∈ engine.session, session.Genuine origins start) :
    Action.Ensures (At origins start) (engine.shutdown observed) fun result => Served origins start result.1 := by
  unfold Engine.shutdown
  cases hsession : engine.session with
  | none => exact Action.Ensures.pure fun s hs => (At.safe hstart hs).served hsession
  | some session =>
    refine Action.Ensures.bind (ensures_restore hstart (hengine session hsession)) fun _ => ?_
    exact Action.Ensures.pure fun s hs => hs.served rfl

end Calls

/-! ### Processes that come and go -/

/-- What happens to the processes without an engine. Any failures may be injected from now on. -/
structure World.Drifts (w w' : World) : Prop where
  length : w'.targets.length = w.targets.length
  target : ∀ slot, (w.target slot).Drifts (w'.target slot)

private theorem World.Drifts.refl (w : World) : w.Drifts w := ⟨rfl, fun slot => .refl (w.target slot)⟩

private theorem fresh_absent : World.absent.Fresh := ⟨rfl, rfl⟩

private theorem getD_append_singleton (ts : List Target) (t : Target) (slot : Nat) :
    (ts ++ [t]).getD slot World.absent =
      if slot < ts.length then ts.getD slot World.absent else if slot = ts.length then t else World.absent := by
  simp only [List.getD_eq_getElem?_getD]
  by_cases hlt : slot < ts.length
  · rw [if_pos hlt, List.getElem?_append_left hlt]
  · rw [if_neg hlt, List.getElem?_append_right (Nat.le_of_not_lt hlt)]
    by_cases heq : slot = ts.length
    · simp [heq]
    · rw [if_neg heq, List.getElem?_eq_none (by rw [List.length_singleton]; omega)]
      rfl

theorem beginning_append {slot : Nat} (hslot : slot < origins.length) (t : Target) :
    beginning (origins ++ [t]) slot = beginning origins slot :=
  (getD_append_singleton origins t slot).trans (if_pos hslot)

private theorem World.Linked.append {w w' : World} (h : w.Linked origins w') (t : Target) :
    w.Linked (origins ++ [t]) w' := by
  obtain ⟨⟨hlength, hsound⟩, hspares⟩ := h
  refine ⟨⟨?_, fun slot hslot => ?_⟩, fun slot hslot => ?_⟩
  · rw [List.length_append]
    omega
  · rw [beginning_append (by omega)]
    exact hsound slot hslot
  · rw [beginning_append (by omega)]
    exact hspares slot hslot

theorem World.target_add {w : World} {slot : Nat} (hslot : slot < w.targets.length) (t : Target) (hidden : Bool) :
    (w.add t hidden).target slot = w.target slot :=
  (getD_append_singleton w.targets t slot).trans (if_pos hslot)

private theorem World.Kept.add {w : World} (h : w.Kept origins w) {t : Target} (hfresh : t.Fresh) (hidden : Bool) :
    (w.add t hidden).Kept (origins ++ [t]) (w.add t hidden) := by
  refine ⟨?_, fun slot => ?_, fun _ => .refl _⟩
  · have := h.length
    simp only [World.add, List.length_append, List.length_singleton, this]
  · have hold := h.sound slot
    unfold beginning World.target at hold ⊢
    simp only [World.add]
    rw [getD_append_singleton, getD_append_singleton, h.length]
    split
    · exact hold
    split
    · exact .start hfresh
    · exact .start fresh_absent

end InMemory

namespace Session.Genuine

variable {session : Session Handle} {origins : List Target} {w w' : World}

private theorem later (h : session.Genuine origins w)
    (hstep : (w.target session.process.slot).Step (w'.target session.process.slot)) : session.Genuine origins w' :=
  ⟨h.known, h.snapshots, fun hfits => h.own (hfits.of_step hstep)⟩

theorem slot_lt (h : session.Genuine origins w) (hlength : w.targets.length = origins.length) :
    session.process.slot < origins.length := by
  by_contra hge
  have habsent : ∀ ts : List Target, ts.length = origins.length →
      ts.getD session.process.slot World.absent = World.absent := by
    intro ts hts
    rw [List.getD_eq_getElem?_getD, List.getElem?_eq_none (by omega)]
    rfl
  have hfits : (w.target session.process.slot).Fits := by
    rw [World.target, habsent w.targets hlength]
    exact ⟨List.Pairwise.nil, nofun, by decide⟩
  have hown := h.own hfits .game
  rw [beginning, habsent origins rfl] at hown
  cases hown

private theorem add (h : session.Genuine origins w) (hlength : w.targets.length = origins.length) (t : Target)
    (hidden : Bool) :
    session.Genuine (origins ++ [t]) (w.add t hidden) := by
  have hslot := h.slot_lt hlength
  have htarget := World.target_add (w := w) (show session.process.slot < w.targets.length by omega) t hidden
  refine ⟨h.known, ?_, ?_⟩
  · rw [beginning_append hslot]
    exact h.snapshots
  · rw [beginning_append hslot, htarget]
    exact h.own

end Session.Genuine

/-! ### Scenes -/

namespace InMemory

/-- The engines, the processes with all that they went through and the failures to come, and how each process
began. -/
structure Scene where
  engines : List (Engine Handle) := []
  state : Traced (Recorded (Faulty World)) := { world := { world := { world := {} } } }
  origins : List Target := []

namespace Scene

def now (scene : Scene) : World := scene.state.world.world.world

/-- The processes at every moment so far: before and after every operation on one of them, and now. -/
def moments (scene : Scene) : List World := scene.state.world.worlds.map (·.world)

def next (scene : Scene) (world : Faulty World) : Scene :=
  { scene with state := { scene.state with world := scene.state.world.next world } }

def launch (scene : Scene) (target : Target) (hidden : Bool) : Scene :=
  { scene.next { scene.state.world.world with world := scene.now.add target hidden } with
    origins := scene.origins ++ [target] }

def create (scene : Scene) (config : EngineConfig) : Scene :=
  { scene with engines := scene.engines ++ [{ config }] }

def answer (scene : Scene) (i : Nat) (engine : Engine Handle) (request : Request) : Scene :=
  let call : Call _ Handle := ⟨engine, request, scene.state⟩
  { scene with engines := scene.engines.set i (call.after observed), state := (call.answer observed).2 }

/-- An engine goes. It is shut down first, whatever is left in its hands. -/
def drop (scene : Scene) (i : Nat) (engine : Engine Handle) : Scene :=
  { scene.answer i engine .shutdown with engines := (scene.answer i engine .shutdown).engines.eraseIdx i }

/-- One step of a run. -/
inductive Step : Scene → Scene → Prop
  | launch (scene : Scene) (target : Target) (h : target.Fresh) (hidden : Bool) :
      Step scene (scene.launch target hidden)
  | create (scene : Scene) (config : EngineConfig) : Step scene (scene.create config)
  | call (scene : Scene) (i : Nat) (engine : Engine Handle) (h : scene.engines[i]? = some engine) (request : Request) :
      Step scene (scene.answer i engine request)
  | drop (scene : Scene) (i : Nat) (engine : Engine Handle) (h : scene.engines[i]? = some engine) :
      Step scene (scene.drop i engine)
  | drift (scene : Scene) (world : Faulty World) (h : scene.now.Drifts world.world) : Step scene (scene.next world)

def inject (scene : Scene) (schedule : Schedule (UInt32 × Operation) Failure) : Scene :=
  scene.next { scene.state.world.world with schedule }

private theorem Step.inject (scene : Scene) (schedule : Schedule (UInt32 × Operation) Failure) :
    Step scene (scene.inject schedule) :=
  .drift scene _ (.refl scene.now)

def unrecorded (scene : Scene) (engine : Engine Handle) (request : Request) :
    (Engine Handle × List Bool) × Traced (Faulty World) :=
  (Call.mk engine request ⟨scene.state.world.world, scene.state.log⟩).answer (Faulty.platform World.platform)

/-- An engine that is on record gives the answer that it would give otherwise. -/
theorem answer_unrecorded (scene : Scene) (i : Nat) (engine : Engine Handle) (request : Request) :
    (scene.answer i engine request).engines = scene.engines.set i (scene.unrecorded engine request).1.1 ∧
      (scene.answer i engine request).state.world.world = (scene.unrecorded engine request).2.world ∧
      (scene.answer i engine request).state.log = (scene.unrecorded engine request).2.log := by
  unfold unrecorded
  rw [(Recorded.erases (Faulty.platform World.platform)).answer engine request scene.state]
  exact ⟨rfl, rfl, rfl⟩

/-- What can come about, starting with no process and no engine. -/
def Reachable (scene : Scene) : Prop := Relation.ReflTransGen Step {} scene

/-- What holds of every scene. -/
structure Safe (scene : Scene) : Prop where
  kept : scene.now.Kept scene.origins scene.now
  genuine : ∀ engine ∈ scene.engines, ∀ session ∈ engine.session, session.Genuine scene.origins scene.now
  past : scene.state.world.worlds.IsChain fun after before => before.world.Linked scene.origins after.world

variable {scene scene' : Scene}

theorem Safe.answer (h : scene.Safe) {i : Nat} {engine : Engine Handle} (hengine : scene.engines[i]? = some engine)
    (request : Request) : (scene.answer i engine request).Safe := by
  have hgenuine := h.genuine engine (List.mem_of_getElem? hengine)
  let call : Call (Recorded (Faulty World)) Handle := ⟨engine, request, scene.state⟩
  have hserved : Served scene.origins scene.now (call.after observed) (call.answer observed).2.world := by
    have hat : At scene.origins scene.now scene.state.world := ⟨rfl, h.past⟩
    cases request with
    | update => exact ensures_update h.kept hgenuine scene.state hat
    | shutdown => exact ensures_shutdown h.kept hgenuine scene.state hat
  obtain ⟨⟨hkept, hsession⟩, hpast⟩ := hserved
  refine ⟨⟨hkept.length, hkept.sound, fun _ => .refl _⟩, fun engine' hengine' session hs => ?_, hpast⟩
  rcases List.mem_or_eq_of_mem_set hengine' with hother | rfl
  · exact (h.genuine engine' hother session hs).later (hkept.step _)
  · exact hsession session hs

/-- Every step keeps a scene safe. -/
theorem Safe.step (h : scene.Safe) (hstep : scene.Step scene') : scene'.Safe := by
  cases hstep with
  | create config =>
    refine ⟨h.kept, fun engine hengine session hs => ?_, h.past⟩
    rcases List.mem_append.1 hengine with hold | hnew
    · exact h.genuine engine hold session hs
    · obtain rfl := List.mem_singleton.1 hnew
      cases hs
  | call i engine hengine request => exact h.answer hengine request
  | drop i engine hengine =>
    -- one engine less, after it was shut down
    have hanswer := h.answer hengine .shutdown
    exact ⟨hanswer.kept, fun engine' h' => hanswer.genuine engine' (List.mem_of_mem_eraseIdx h'), hanswer.past⟩
  | launch target hfresh hidden =>
    refine ⟨h.kept.add hfresh hidden, fun engine hengine session hs => ?_, List.isChain_cons_cons.2 ⟨?_, ?_⟩⟩
    · exact (h.genuine engine hengine session hs).add h.kept.length target hidden
    · have hlinked : scene.now.Linked scene.origins (scene.now.add target hidden) := by
        refine ⟨h.kept.good, fun slot hslot => ?_⟩
        rw [World.target_add hslot]
        exact (Target.SameShape.refl _).spares
      exact hlinked.append target
    · exact h.past.imp fun _ _ hlinked => hlinked.append target
  | drift world hdrift =>
    refine ⟨⟨?_, fun slot => ?_, fun _ => .refl _⟩, fun engine hengine session hs => ?_,
      List.isChain_cons_cons.2 ⟨⟨h.kept.good, fun slot _ => ?_⟩, h.past⟩⟩
    · exact hdrift.length.trans h.kept.length
    · exact (h.kept.sound slot).drift (hdrift.target slot)
    · exact (h.genuine engine hengine session hs).later (hdrift.target _).shape.step
    · exact (hdrift.target slot).shape.spares

theorem Reachable.safe (h : scene.Reachable) : scene.Safe := by
  induction h with
  | refl =>
    exact ⟨⟨rfl, fun _ => .start fresh_absent, fun _ => .refl _⟩, nofun, List.isChain_singleton _⟩
  | tail _ hstep ih => exact ih.step hstep

private theorem Safe.good (h : scene.Safe) {world : World} (hworld : world ∈ scene.moments) :
    world.Good scene.origins := by
  have hlinked : ∀ (first : Faulty World) rest, (first :: rest).IsChain
      (fun after before => before.world.Linked scene.origins after.world) → ∀ s ∈ rest, s.world.Good scene.origins := by
    intro first rest hchain
    induction rest generalizing first with
    | nil => nofun
    | cons second rest ih =>
      obtain ⟨hlinked, hrest⟩ := List.isChain_cons_cons.1 hchain
      exact List.forall_mem_cons.2 ⟨hlinked.1, ih second hrest⟩
  obtain ⟨s, hs, rfl⟩ := List.mem_map.1 hworld
  rcases List.mem_cons.1 hs with rfl | hs
  · exact h.kept.good
  · exact hlinked _ _ h.past s hs

structure Began (scene : Scene) (world : World) (slot : Nat) (origin target : Target) : Prop where
  target : world.targets[slot]? = some target
  origin : scene.origins[slot]? = some origin

private theorem Began.lt {world : World} {slot : Nat} {origin target : Target}
    (h : scene.Began world slot origin target) :
    slot < world.targets.length ∧ world.target slot = target ∧ beginning scene.origins slot = origin := by
  obtain ⟨hlt, -⟩ := List.getElem?_eq_some_iff.1 h.target
  refine ⟨hlt, ?_, ?_⟩
  · rw [World.target, List.getD_eq_getElem?_getD, h.target]
    rfl
  · rw [beginning, List.getD_eq_getElem?_getD, h.origin]
    rfl

private theorem Safe.began (h : scene.Safe) {slot : Nat} {origin : Target}
    (horigin : scene.origins[slot]? = some origin) :
    scene.Began scene.now slot origin (scene.now.target slot) := by
  refine ⟨?_, horigin⟩
  obtain ⟨hlt, -⟩ := List.getElem?_eq_some_iff.1 horigin
  rw [World.target, List.getD_eq_getElem?_getD, List.getElem?_eq_getElem (by rw [h.kept.length]; exact hlt)]
  rfl

/-- **No dangling redirection.** At every moment of a run, each site of a process that fits in its address space holds
what it held when the process began, or a jump to its wrapper in a head block that is allocated and complete. And a
block is released between two moments only if no site of the process leads anywhere. -/
theorem no_dangling_redirect (h : scene.Reachable) :
    (∀ world ∈ scene.moments, ∀ slot origin target, scene.Began world slot origin target → target.Fits →
      ∀ site, origin.Intact target site ∨ origin.Redirected target site) ∧
    scene.moments.IsChain fun after before => ∀ slot origin target, scene.Began before slot origin target →
      target.Fits → ∀ base, target.isAllocated base = true → (after.target slot).isAllocated base = false →
      ∀ site, origin.Intact target site := by
  refine ⟨?_, ?_⟩
  · intro world hworld slot origin target hbegan hfits site
    obtain ⟨hlt, rfl, rfl⟩ := hbegan.lt
    exact ((h.safe.good hworld).2 slot hlt).sites hfits site
  · refine (List.isChain_map _).2 (h.safe.past.imp ?_)
    rintro after before ⟨-, hspares⟩ slot origin target hbegan hfits base hbefore hafter
    obtain ⟨hlt, rfl, rfl⟩ := hbegan.lt
    rcases hspares slot hlt hfits with hintact | hkept
    · exact hintact
    · rw [hkept base hbefore] at hafter
      cases hafter

/-! ### A run that leaves a site redirected -/

def retailGame : Target where
  info := ⟨7, "mc2.exe"⟩
  moduleBase := 0x400000
  mapped := (Build.retail.imageParts 0x400000).map fun part => .ofBytes (0x400000 + part.1).toNat part.2

def attached : Scene := ((({} : Scene).launch retailGame false).create {}).answer 0 {} .update

def disturbed : Scene := attached.inject [⟨(7, .write), 0, 1, .exited⟩]

/-- The engine was shut down. It could not put the first site back. -/
def halfRestored : Scene := disturbed.answer 0 (disturbed.engines.getD 0 {}) .shutdown

theorem reachable_halfRestored : halfRestored.Reachable := by
  have hlaunch : Reachable (({} : Scene).launch retailGame false) :=
    Relation.ReflTransGen.refl.tail (.launch {} retailGame ⟨rfl, rfl⟩ false)
  have hcreate := hlaunch.tail (.create _ {})
  have hattached : attached.Reachable := hcreate.tail (.call _ 0 {} rfl .update)
  have hdisturbed : disturbed.Reachable := hattached.tail (.inject attached _)
  exact hdisturbed.tail (.call disturbed 0 (disturbed.engines.getD 0 {}) rfl .shutdown)

private theorem fits_halfRestored : (halfRestored.now.target 0).Fits :=
  Target.fits_of_extents (by decide +kernel) (by decide +kernel) (by decide +kernel)

/-- The site that was not put back leads into a block that was kept for it, and the others are intact. -/
theorem no_dangling_redirect_half_restored :
    halfRestored.Reachable ∧ retailGame.Redirected (halfRestored.now.target 0) .game ∧
      ∀ site, site ≠ .game → retailGame.Intact (halfRestored.now.target 0) site := by
  have hbegan : halfRestored.Began halfRestored.now 0 retailGame (halfRestored.now.target 0) :=
    reachable_halfRestored.safe.began rfl
  have hsites := (no_dangling_redirect reachable_halfRestored).1 _ (List.mem_cons_self ..) 0 _ _ hbegan
    fits_halfRestored
  have hchanged : (halfRestored.now.target 0).entry .game ≠ retailGame.entry .game := by decide +kernel
  have hback : ∀ site ∈ Site.all, site ≠ .game → (halfRestored.now.target 0).entry site = retailGame.entry site := by
    decide +kernel
  exact ⟨reachable_halfRestored, (hsites .game).resolve_left hchanged, fun site => hback site site.mem_all⟩

end Scene

end InMemory

end LoadRemover
