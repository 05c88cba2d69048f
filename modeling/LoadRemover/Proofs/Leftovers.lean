import LoadRemover.Proofs.Readings
import LoadRemover.Proofs.Settling

/-!
# Blocks that are left behind

A `Solo` is a run of one engine with one process: the engine is called, and between two calls other things happen to the
process. `Solo.Accounted` says where all blocks of the process are: each one was left for good by some call so far, or
it is the one block that some site still leads to. Each step keeps the account (`Accounted.step`), whatever accesses
fail.

A failed attempt to attach can leave its block although no site leads there: the jump to be written to a site was
refused, and then this site's own code was refused as well. `Solo.blocks_of_run` says that no other blocks are left, as
long as none of them fails to be released.
-/

namespace LoadRemover

namespace InMemory

open Target (Ledger Owing)

/-! ### Calls -/

/-- What a call leaves of its process and of its engine. Of the blocks that do not stay for good, this is `known`. -/
def Left (origin : Target) (kept : List UInt32) (known : List UInt32 → Prop) (slot : Nat) (engine : Engine Handle)
    (s : Journal (Faulty World)) : Prop :=
  ∃ rest, known rest ∧ origin.Owing (kept ++ (Tally.of s.accesses).left) rest (s.world.world.target slot) ∧
    ∀ session ∈ engine.session, rest = [session.head] ∧ ∀ snapshot ∈ session.snapshots, snapshot.code.isPlaced = true

section Calls

variable {origins : List Target} {start : World} {kept rest : List UInt32} {known : List UInt32 → Prop} {slot : Nat}
  {engine : Engine Handle}

private theorem Looked.left {s : Journal (Faulty World)} (h : Looked start s)
    (howing : (beginning origins slot).Owing kept rest (start.target slot)) (hknown : known rest)
    (hengine : ∀ session ∈ engine.session, rest = [session.head] ∧
      ∀ snapshot ∈ session.snapshots, snapshot.code.isPlaced = true) :
    Left (beginning origins slot) kept known slot engine s := by
  refine ⟨rest, hknown, ?_, hengine⟩
  rw [h.1, h.2, show Tally.left {} = [] from rfl, List.append_nil]
  exact howing

private theorem Settled.left {s : Journal (Faulty World)}
    (h : Settled (beginning origins slot) kept (Tally.of s.accesses) (s.world.world.target slot))
    (hknown : ∀ rest, known rest) (hnone : engine.session = none) :
    Left (beginning origins slot) kept known slot engine s := by
  obtain ⟨rest, howing⟩ := h
  refine ⟨rest, hknown rest, howing, ?_⟩
  rw [hnone]
  nofun

private theorem World.Accepts.lt (h : start.Accepts slot) : slot < start.targets.length := by
  obtain ⟨candidate, rfl, hverified⟩ := h
  by_contra hge
  have hentry := entry_of_verified hverified .game
  rw [World.target, List.getD_eq_getElem?_getD, List.getElem?_eq_none (by omega)] at hentry
  cases hentry

/-- All sites of the process lead to the block of the session, and besides this one there are the blocks `kept`. -/
structure Booked (origins : List Target) (start : World) (kept : List UInt32) (session : Session Handle) : Prop where
  genuine : session.Genuine origins start
  slot : session.process.slot = 0
  placed : ∀ snapshot ∈ session.snapshots, snapshot.code.isPlaced = true
  ledger : (beginning origins 0).Ledger session.build (fun _ => True) (kept ++ [session.head]) (start.target 0)

private theorem Booked.ensures_shutdown {session : Session Handle} (h : Booked origins start kept session)
    (hsession : engine.session = some session) :
    Action.Ensures (Looked start) (engine.shutdown (Journal.platform processes)) fun result s =>
      result.1.session = none ∧
        Restored (beginning origins 0) session.build kept session.head s.accesses (s.world.world.target 0) := by
  have hslot := h.slot
  have hrestore := ensures_restore_tallied h.genuine h.placed (by rw [hslot]; exact h.ledger)
  unfold Engine.shutdown
  rw [hsession]
  refine Action.Ensures.bind hrestore fun _ => Action.Ensures.pure fun s hs => ⟨rfl, ?_⟩
  rwa [hslot] at hs

variable (howing : (beginning origins 0).Owing kept rest (start.target 0))
include howing

private theorem left_shutdown (hknown : ∀ rest, known rest)
    (hengine : ∀ session ∈ engine.session, rest = [session.head] ∧ Booked origins start kept session) :
    Action.Ensures (Looked start) (engine.shutdown (Journal.platform processes))
      fun result => Left (beginning origins 0) kept known 0 result.1 := by
  cases hsession : engine.session with
  | none =>
    unfold Engine.shutdown
    rw [hsession]
    refine Action.Ensures.pure fun s hs => hs.left howing (hknown rest) ?_
    rw [hsession]
    nofun
  | some session =>
    obtain ⟨-, hbooked⟩ := hengine session hsession
    refine (hbooked.ensures_shutdown hsession).post_mono fun result s hs => ?_
    exact Settled.left hs.2.settled hknown hs.1

variable (hstart : start.Kept origins start) (hlength : start.targets.length = 1)
  (hknown : ∀ rest', ((start.target 0).Fits → rest ⊆ rest') → known rest')
include hstart hlength hknown

private theorem left_tryAttach (hnone : engine.session = none) :
    Action.Ensures (Looked start) (engine.tryAttach (Journal.platform processes))
      fun engine' => Left (beginning origins 0) kept known 0 engine' := by
  have hsame : known rest := hknown rest fun _ => List.Subset.refl rest
  refine (quiet_looked start).ensures_tryAttach (fun _ hs => hs) (fun s hs => hs.left howing hsame ?_)
    fun candidate hverified => ?_
  · rw [hnone]
    nofun
  have hslot : candidate.process.slot = 0 := by
    have := World.Accepts.lt ⟨candidate, rfl, hverified⟩
    omega
  obtain ⟨hbase, hintact⟩ := intact_of_verified hstart hverified
  have hplaced := fun snapshot hsnapshot => (hverified.code snapshot hsnapshot).1
  obtain ⟨⟨slot, pid⟩, build, moduleBase, snapshots⟩ := candidate
  obtain rfl : slot = 0 := hslot
  obtain rfl : snapshots = build.snapshots moduleBase := hverified.snapshots
  obtain rfl : moduleBase = (beginning origins 0).moduleBase := hbase
  have hledger := howing.ledger_kept (hstart.sound 0) hintact
  -- all sites are as in the beginning, so no block has to stay for them
  have hnew : ∀ rest', known rest' := by
    refine fun rest' => hknown rest' fun hfits => ?_
    rw [howing.rest_eq_nil hfits fun site => (hintact hfits).2 site id]
    exact List.nil_subset rest'
  refine (ensures_attach_tallied hverified.known hplaced ⟨0, pid⟩ kept).mono
    (fun s (hs : Looked start s) => ⟨hs.1, hs.2 ▸ hledger⟩) ?_ fun s hs => Settled.left hs hnew hnone
  rintro _ s ⟨base, rfl, htally, hledger⟩
  refine ⟨[base], hnew _, ?_, ?_⟩
  · rw [htally, show Tally.left { block? := some base } = [] from rfl, List.append_nil]
    exact hledger.owing_one .game trivial
  · rintro _ ⟨⟩
    exact ⟨rfl, hplaced⟩

private theorem left_update
    (hengine : ∀ session ∈ engine.session, rest = [session.head] ∧ Booked origins start kept session) :
    Action.Ensures (Looked start) (engine.update (Journal.platform processes))
      fun result => Left (beginning origins 0) kept known 0 result.1 := by
  have hsame : known rest := hknown rest fun _ => List.Subset.refl rest
  refine (quiet_looked start).ensures_update (fun _ hs => hs) (left_tryAttach howing hstart hlength hknown) ?_
    fun _ _ _ hs => hs.left howing hsame nofun
  intro session session' s hsession hprocess hs
  obtain ⟨hrest, hbooked⟩ := hengine session hsession
  refine hs.left howing hsame ?_
  rintro _ ⟨⟩
  rw [hprocess.head, hprocess.snapshots]
  exact ⟨hrest, hbooked.placed⟩

end Calls

/-! ### Runs of one engine with one process -/

/-- An engine and its process, and the accesses of each call so far. -/
structure Solo where
  engine : Engine Handle
  state : Traced (Faulty World)
  calls : List (List Access) := []

namespace Solo

def target (solo : Solo) : Target := solo.state.world.world.target 0

/-- The blocks that the calls have left for good. -/
def left (solo : Solo) : List UInt32 := solo.calls.flatMap fun accesses => (Tally.of accesses).left

/-- Those of them that are left by an attempt that could neither redirect nor put back some site. -/
def stranded (solo : Solo) : List UInt32 := solo.calls.filterMap fun accesses => (Tally.of accesses).stranded?

/-- The engine is new, and so is the process. -/
def start (origin : Target) (hidden : Bool) (config : EngineConfig) : Solo :=
  ⟨{ config }, { world := { world := ({} : World).add origin hidden } }, []⟩

/-- What would be accessed by a call now. -/
def accesses (solo : Solo) (request : Request) : List Access :=
  (Call.mk solo.engine request solo.state).accesses processes

def call (solo : Solo) (request : Request) : Solo :=
  let call : Call _ Handle := ⟨solo.engine, request, solo.state⟩
  ⟨call.after processes, (call.answer processes).2, solo.calls ++ [solo.accesses request]⟩

/-- What happens to the process meanwhile, and failures to come. -/
def next (solo : Solo) (world : Faulty World) : Solo := { solo with state := { solo.state with world } }

inductive Step : Solo → Solo → Prop
  | call (solo : Solo) (request : Request) : Step solo (solo.call request)
  | drift (solo : Solo) (world : Faulty World) (h : solo.state.world.world.Drifts world.world) :
      Step solo (solo.next world)

variable {origin : Target} {hidden : Bool} {config : EngineConfig} {solo solo' : Solo}

/-- The same run on record. -/
structure On (origin : Target) (solo : Solo) (scene : Scene) : Prop where
  reachable : scene.Reachable
  engines : scene.engines = [solo.engine]
  origins : scene.origins = [origin]
  world : scene.state.world.world = solo.state.world
  log : scene.state.log = solo.state.log

private theorem On.step {scene : Scene} (h : solo.On origin scene) (hstep : Step solo solo') :
    ∃ scene', solo'.On origin scene' := by
  cases hstep with
  | call request =>
    obtain ⟨hengines, hworld, hlog⟩ := scene.answer_unrecorded 0 solo.engine request
    have hsame : scene.unrecorded solo.engine request =
        (Call.mk solo.engine request solo.state).answer processes := by
      unfold Scene.unrecorded
      rw [h.world, h.log]
    rw [hsame] at hengines hworld hlog
    refine ⟨scene.answer 0 solo.engine request, h.reachable.tail (.call scene 0 solo.engine ?_ request), ?_, h.origins,
      hworld, hlog⟩
    · rw [h.engines]
      rfl
    · rw [hengines, h.engines]
      rfl
  | drift world hdrift =>
    refine ⟨scene.next world, h.reachable.tail (.drift scene world ?_), h.engines, h.origins, rfl, h.log⟩
    rw [Scene.now, h.world]
    exact hdrift

theorem exists_on (hfresh : origin.Fresh) (hrun : Relation.ReflTransGen Step (start origin hidden config) solo) :
    ∃ scene, solo.On origin scene := by
  induction hrun with
  | refl =>
    have hlaunch : Scene.Reachable (({} : Scene).launch origin hidden) :=
      Relation.ReflTransGen.refl.tail (.launch {} origin hfresh hidden)
    exact ⟨_, hlaunch.tail (.create _ config), rfl, rfl, rfl, rfl⟩
  | tail _ hstep ih =>
    obtain ⟨scene, hscene⟩ := ih
    exact hscene.step hstep

private theorem call_spec (solo : Solo) (request : Request) :
    let after := (Call.mk solo.engine request solo.state).journaled processes
    (solo.call request).engine = after.1.1 ∧ (solo.call request).target = after.2.world.world.world.target 0 ∧
      (solo.call request).left = solo.left ++ (Tally.of (solo.accesses request)).left := by
  have hanswer := (Call.mk solo.engine request solo.state).answer_eq processes
  refine ⟨congrArg (fun answer => answer.1.1) hanswer,
    congrArg (fun answer => answer.2.world.world.target 0) hanswer, ?_⟩
  unfold left Solo.call
  rw [List.flatMap_append, List.flatMap_singleton]

/-- All blocks are accounted for, and if the engine is attached, its own block is one of them. -/
def Accounted (origin : Target) (solo : Solo) : Prop :=
  ∃ rest, origin.Owing solo.left rest solo.target ∧
    ∀ session ∈ solo.engine.session, rest = [session.head] ∧
      ∀ snapshot ∈ session.snapshots, snapshot.code.isPlaced = true

section Scene

variable {scene : Scene} (hscene : solo.On origin scene)
include hscene

private theorem On.kept : solo.state.world.world.Kept [origin] solo.state.world.world := by
  have hkept := hscene.reachable.owned.safe.kept
  rwa [hscene.origins, show scene.now = solo.state.world.world from congrArg Faulty.world hscene.world] at hkept

theorem Accounted.booked (h : solo.Accounted origin) {session : Session Handle}
    (hsession : solo.engine.session = some session) : Booked [origin] solo.state.world.world solo.left session := by
  have howned := hscene.reachable.owned
  have hnow : scene.now = solo.state.world.world := congrArg Faulty.world hscene.world
  have hmem : scene.engines[0]? = some solo.engine := by
    rw [hscene.engines]
    rfl
  have hgenuine := howned.safe.genuine solo.engine (List.mem_of_getElem? hmem) session hsession
  have hchanged := howned.changed 0 solo.engine _ hmem ⟨session, hsession, rfl⟩
  rw [hnow, hscene.origins] at hgenuine hchanged
  obtain ⟨rest, howing, hsessions⟩ := h
  obtain ⟨rfl, hplaced⟩ := hsessions session hsession
  have hslot : session.process.slot = 0 := by
    have := hgenuine.slot_lt hscene.kept.length
    rw [List.length_singleton] at this
    omega
  have hown := hgenuine.own
  rw [hslot] at hown hchanged
  exact ⟨hgenuine, hslot, hplaced, howing.ledger_all (hscene.kept.sound 0) hown hchanged⟩

theorem On.step_call (request : Request) : solo.target.Step (solo.call request).target := by
  have hsafe := hscene.reachable.safe
  have hmem : solo.engine ∈ scene.engines := by
    rw [hscene.engines]
    exact List.mem_singleton_self _
  have hgenuine := hsafe.genuine solo.engine hmem
  let recorded : Call (Recorded (Faulty World)) Handle := ⟨solo.engine, request, scene.state⟩
  have hserved : Served scene.origins scene.now (recorded.after observed) (recorded.answer observed).2.world := by
    have hat : At scene.origins scene.now scene.state.world := ⟨rfl, hsafe.past⟩
    cases request with
    | update => exact ensures_update hsafe.kept hgenuine scene.state hat
    | shutdown => exact ensures_shutdown hsafe.kept hgenuine scene.state hat
  have hstep : (scene.now.target 0).Step ((scene.answer 0 solo.engine request).state.world.world.world.target 0) :=
    hserved.1.1.step 0
  obtain ⟨-, hworld, -⟩ := scene.answer_unrecorded 0 solo.engine request
  unfold Scene.unrecorded at hworld
  rw [hworld, show scene.now = solo.state.world.world from congrArg Faulty.world hscene.world, hscene.world,
    hscene.log] at hstep
  exact hstep

/-- A call keeps account of all blocks. Only a shutdown can release a block that was there before. -/
private theorem Accounted.call (h : solo.Accounted origin) (request : Request) :
    ∃ rest rest', origin.Owing solo.left rest solo.target ∧
      (request = .update → solo.target.Fits → rest ⊆ rest') ∧
      origin.Owing (solo.call request).left rest' (solo.call request).target ∧
      ∀ session ∈ (solo.call request).engine.session, rest' = [session.head] ∧
        ∀ snapshot ∈ session.snapshots, snapshot.code.isPlaced = true := by
  have hbooked := fun session => @Accounted.booked _ _ _ hscene h session
  obtain ⟨rest, howing, hsessions⟩ := h
  replace howing : (beginning [origin] 0).Owing solo.left rest (solo.state.world.world.target 0) := howing
  have hengine : ∀ session ∈ solo.engine.session, rest = [session.head] ∧
      Booked [origin] solo.state.world.world solo.left session :=
    fun session hsession => ⟨(hsessions session hsession).1, hbooked session hsession⟩
  let call : Call (Faulty World) Handle := ⟨solo.engine, request, solo.state⟩
  have hleft : Left (beginning [origin] 0) solo.left
      (fun rest' => request = .update → solo.target.Fits → rest ⊆ rest') 0 (call.journaled processes).1.1
      (call.journaled processes).2.world := by
    cases request with
    | update =>
      exact left_update howing hscene.kept hscene.kept.length (fun _ h _ => h) hengine (Journal.start solo.state)
        ⟨rfl, rfl⟩
    | shutdown => exact left_shutdown howing (fun _ => nofun) hengine (Journal.start solo.state) ⟨rfl, rfl⟩
  obtain ⟨rest', hkept, howing', hsessions'⟩ := hleft
  obtain ⟨hcallEngine, hcallTarget, hcallLeft⟩ := solo.call_spec request
  refine ⟨rest, rest', howing, hkept, ?_, ?_⟩
  · rw [hcallTarget, hcallLeft]
    exact howing'
  · rw [hcallEngine]
    exact hsessions'

theorem Accounted.restored (h : solo.Accounted origin) {session : Session Handle}
    (hsession : solo.engine.session = some session) :
    Restored origin session.build solo.left session.head (solo.accesses .shutdown) (solo.call .shutdown).target := by
  have hshutdown := (h.booked hscene hsession).ensures_shutdown hsession (Journal.start solo.state) ⟨rfl, rfl⟩
  rw [(solo.call_spec .shutdown).2.1]
  exact hshutdown.2

private theorem Accounted.step (h : solo.Accounted origin) (hstep : Step solo solo') : solo'.Accounted origin := by
  cases hstep with
  | drift world hdrift =>
    obtain ⟨rest, howing, hsessions⟩ := h
    exact ⟨rest, howing.drift (hscene.kept.sound 0) (hdrift.target 0), hsessions⟩
  | call request =>
    obtain ⟨-, rest', -, -, howing', hsessions'⟩ := h.call hscene request
    exact ⟨rest', howing', hsessions'⟩

theorem On.target_step (hstep : Step solo solo') : solo.target.Step solo'.target := by
  cases hstep with
  | call request => exact hscene.step_call request
  | drift world hdrift => exact (hdrift.target 0).shape.step

theorem Accounted.isAllocated_update (h : solo.Accounted origin) (hfits : (solo.call .update).target.Fits)
    {base : UInt32} (hbase : solo.target.isAllocated base = true) :
    (solo.call .update).target.isAllocated base = true := by
  have hbefore := hfits.of_step (hscene.step_call .update)
  obtain ⟨rest, rest', howing, hkept, howing', -⟩ := h.call hscene .update
  rw [Target.isAllocated_iff (howing.blocks hbefore)] at hbase
  rw [Target.isAllocated_iff (howing'.blocks hfits), (solo.call_spec .update).2.2]
  rcases List.mem_append.1 hbase with hleft | hrest
  · exact List.mem_append_left _ (List.mem_append_left _ hleft)
  · exact List.mem_append_right _ (hkept rfl hbefore hrest)

end Scene

private theorem accounted_start (hfresh : origin.Fresh) : (start origin hidden config).Accounted origin := by
  refine ⟨[], ⟨fun _ => ?_, fun _ => List.nodup_nil, .inl rfl⟩, nofun⟩
  show origin.blocks.map (·.base) = []
  rw [hfresh.blocks]
  rfl

theorem accounted_of_run (hfresh : origin.Fresh)
    (hrun : Relation.ReflTransGen Step (start origin hidden config) solo) : solo.Accounted origin := by
  induction hrun with
  | refl => exact accounted_start hfresh
  | tail hrun hstep ih =>
    obtain ⟨scene, hscene⟩ := exists_on hfresh hrun
    exact ih.step hscene hstep

private theorem left_eq_stranded
    (hfreed : ∀ accesses ∈ solo.calls, ∀ address failure, .free address (.error failure) ∉ accesses) :
    solo.left = solo.stranded := by
  have hcall : ∀ accesses ∈ solo.calls, (Tally.of accesses).left = (Tally.of accesses).stranded?.toList := by
    intro accesses haccesses
    have hunfreed : (Tally.of accesses).unfreed = [] := by
      refine List.eq_nil_iff_forall_not_mem.2 fun address hmem => ?_
      obtain ⟨failure, hfailure⟩ := Tally.mem_unfreed_of.1 hmem
      exact hfreed accesses haccesses address failure hfailure
    rw [Tally.left, hunfreed, List.append_nil]
  unfold left stranded
  rw [List.flatMap_congr hcall, List.filterMap_eq_flatMap_toList]

/-- **What is left behind.** An engine runs with one process, any accesses fail but no release does. If all sites are as
in the beginning, the blocks that are allocated are the stranded ones: those of attempts in which some site could not
be redirected and then could not be put back. In any case there is at most one block besides them. -/
theorem blocks_of_run (hfresh : origin.Fresh) (hrun : Relation.ReflTransGen Step (start origin hidden config) solo)
    (hfreed : ∀ accesses ∈ solo.calls, ∀ address failure, .free address (.error failure) ∉ accesses)
    (hfits : solo.target.Fits) :
    ((∀ site, origin.Intact solo.target site) →
      solo.target.blocks.map (·.base) = solo.stranded.map (·.toNat)) ∧
    solo.target.blocks.length ≤ solo.stranded.length + 1 := by
  obtain ⟨rest, howing, -⟩ := accounted_of_run hfresh hrun
  rw [left_eq_stranded hfreed] at howing
  have hblocks := howing.blocks hfits
  refine ⟨fun hintact => ?_, ?_⟩
  · rcases howing.rest with rfl | ⟨base, -, hchanged⟩
    · rw [hblocks, List.append_nil]
    · obtain ⟨site, hsite⟩ := hchanged hfits
      exact absurd (hintact site) hsite
  · have hlength := congrArg List.length hblocks
    rw [List.length_map, List.length_map, List.length_append] at hlength
    rcases howing.rest with rfl | ⟨base, rfl, -⟩
    · exact hlength ▸ Nat.le_succ _
    · exact Nat.le_of_eq hlength

/-! ### A site that cannot be written to -/

/-- A process of the retail build. After the block, the first site cannot be written to, and so a second time. -/
def stuckGame : Target := { Scene.retailGame with refusedWrites := [1, 1, 2, 2] }

def stuckTwice : Solo := ((start stuckGame false {}).call .update).call .update

private theorem run_stuckTwice : Relation.ReflTransGen Step (start stuckGame false {}) stuckTwice :=
  (Relation.ReflTransGen.refl.tail (.call (start stuckGame false {}) .update)).tail
    (.call ((start stuckGame false {}).call .update) .update)

/-- The run, evaluated. -/
private theorem seen_stuckTwice :
    (∀ accesses ∈ stuckTwice.calls, (Tally.of accesses).unfreed = []) ∧
    (∀ site ∈ Site.all, stuckTwice.target.entry site = stuckGame.entry site) ∧
    stuckTwice.stranded.map (·.toNat) = [0x1000000, 0x1001000] ∧ stuckTwice.engine.isAttached = false ∧
    stuckTwice.target.exited = false ∧ stuckTwice.target.blocks.length = 2 := by
  decide +kernel

private theorem freed_stuckTwice :
    ∀ accesses ∈ stuckTwice.calls, ∀ address failure, .free address (.error failure) ∉ accesses := by
  obtain ⟨hcounted, -⟩ := seen_stuckTwice
  intro accesses haccesses address failure hmem
  have hunfreed := Tally.mem_unfreed_of.2 ⟨failure, hmem⟩
  rw [hcounted accesses haccesses] at hunfreed
  cases hunfreed

private theorem intact_stuckTwice (site : Site) : stuckGame.Intact stuckTwice.target site := by
  obtain ⟨-, hall, -⟩ := seen_stuckTwice
  exact hall site site.mem_all

/-- Each attempt has left its block, and no site leads there. -/
theorem blocks_of_run_stuck : stuckTwice.target.blocks.map (·.base) = [0x1000000, 0x1001000] := by
  have hfits : stuckTwice.target.Fits :=
    Target.fits_of_extents (by decide +kernel) (by decide +kernel) (by decide +kernel)
  obtain ⟨-, -, hstranded, -⟩ := seen_stuckTwice
  obtain ⟨hblocks, -⟩ := blocks_of_run ⟨rfl, rfl⟩ run_stuckTwice freed_stuckTwice hfits
  rw [hblocks intact_stuckTwice, hstranded]

/-- A process can have two blocks although the engine is detached, the process lives, all of its sites are as in the
beginning and no release has failed. -/
theorem two_blocks_of_stuck : ∃ solo, Relation.ReflTransGen Step (start stuckGame false {}) solo ∧
    (∀ accesses ∈ solo.calls, ∀ address failure, .free address (.error failure) ∉ accesses) ∧
    solo.engine.isAttached = false ∧ solo.target.exited = false ∧ (∀ site, stuckGame.Intact solo.target site) ∧
    solo.target.blocks.length = 2 := by
  obtain ⟨-, -, -, hdetached, halive, htwo⟩ := seen_stuckTwice
  exact ⟨stuckTwice, run_stuckTwice, freed_stuckTwice, hdetached, halive, intact_stuckTwice, htwo⟩

end Solo

end InMemory

end LoadRemover
