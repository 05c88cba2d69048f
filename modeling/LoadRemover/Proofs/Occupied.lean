import LoadRemover.Proofs.Leftovers

/-!
# Wrapped calls that are running

While a wrapped function runs, its return address lies in the head block: the call has entered the block through the
site, and it goes back through it. A `Play` is a run of one engine with one process in which wrapped functions are
entered and left at any moments between the calls of the engine.

The block is released once all sites are put back, and then nothing can enter it any more (`Target.Own.not_leads`). But
neither the loading flag nor the calls that are running have a say in it: a shutdown that meets no failure releases the
block under them (`Play.release_of_run`). So a game is safe as long as the engine is shut down between wrapped calls
(`Play.whole_of_run`).
-/

namespace LoadRemover.InMemory

namespace Target

variable {origin t t' : Target} {build : Build} {site : Site} {base : UInt32}

/-- A call of the function at the site goes through the block at `base`. -/
def Leads (origin t : Target) (site : Site) (base : UInt32) : Prop :=
  ∃ build ∈ Build.known, t.HoldsHead (Head.placed (build.snapshots t.moduleBase) base).code ∧
    origin.JumpsInto t site (Head.placed (build.snapshots t.moduleBase) base)

private theorem Leads.isAllocated (h : origin.Leads t site base) : t.isAllocated base = true := by
  obtain ⟨_, -, hholds, -⟩ := h
  exact hholds.1

/-- A function that begins as it did in the beginning does not begin with a jump. -/
private theorem Own.not_leads (hown : origin.Own build) (hintact : origin.Intact t site) :
    ¬ origin.Leads t site base := by
  rintro ⟨_, -, -, _, -, -, -, -, relative, first, sixth, -, hentry, -⟩
  have hsame := Option.some.inj ((hown site).symm.trans (hintact.symm.trans hentry))
  exact absurd (by rw [hsame]; rfl) (head?_preamble site build origin.moduleBase)

end Target

/-! ### Plays -/

/-- A wrapped call in progress: the function that runs, and the block to which it returns. -/
structure Running where
  site : Site
  head : UInt32

/-- An engine and its process, and the wrapped calls in progress there, the innermost first. -/
structure Play where
  solo : Solo
  running : List Running := []

namespace Play

def start (origin : Target) (hidden : Bool) (config : EngineConfig) : Play := ⟨.start origin hidden config, []⟩

def world (play : Play) : World := play.solo.state.world.world

def target (play : Play) : Target := play.world.target 0

def call (play : Play) (request : Request) : Play := { play with solo := play.solo.call request }

def next (play : Play) (world : Faulty World) (running : List Running) : Play := ⟨play.solo.next world, running⟩

/-- One step. A call that goes through a block raises the flag there, and leaves the end value of its site when it
returns. It can only return to a block that was not released. -/
inductive Step (origin : Target) : Play → Play → Prop
  | call (play : Play) (request : Request) : Step origin play (play.call request)
  | enter (play : Play) (world : Faulty World) (site : Site) (base : UInt32)
      (hleads : origin.Leads play.target site base) (hdrifts : play.world.Drifts world.world)
      (hflag : (world.world.target 0).peek? base 1 = some [Flag.busy]) :
      Step origin play (play.next world (⟨site, base⟩ :: play.running))
  | leave (play : Play) (world : Faulty World) (inner : Running) (outer : List Running)
      (hrunning : play.running = inner :: outer) (hallocated : play.target.isAllocated inner.head = true)
      (hdrifts : play.world.Drifts world.world)
      (hflag : (world.world.target 0).peek? inner.head 1 = some [inner.site.endValue]) :
      Step origin play (play.next world outer)
  | drift (play : Play) (world : Faulty World) (hdrifts : play.world.Drifts world.world) :
      Step origin play (play.next world play.running)

/-- A wrapped call in progress will return to a block that was released. -/
def Broken (play : Play) : Prop := ∃ running ∈ play.running, play.target.isAllocated running.head = false

variable {origin : Target} {hidden : Bool} {config : EngineConfig} {play play' : Play}

private theorem Step.solo (h : Step origin play play') : Solo.Step play.solo play'.solo := by
  cases h with
  | call request => exact .call play.solo request
  | enter world site base _ hdrifts _ => exact .drift play.solo world hdrifts
  | leave world inner outer _ _ hdrifts _ => exact .drift play.solo world hdrifts
  | drift world hdrifts => exact .drift play.solo world hdrifts

private theorem solo_of_run (hrun : Relation.ReflTransGen (Step origin) (start origin hidden config) play) :
    Relation.ReflTransGen Solo.Step (.start origin hidden config) play.solo :=
  hrun.lift (fun play : Play => play.solo) fun _ _ hstep => hstep.solo

/-- Only a shutdown breaks a game. -/
private theorem shutdown_of_broken {scene : Scene} (hscene : play.solo.On origin scene)
    (haccounted : play.solo.Accounted origin) (hstep : Step origin play play') (hfits : play'.target.Fits)
    (hwhole : ¬ play.Broken) (hbroken : play'.Broken) :
    play' = play.call .shutdown := by
  have hallocated : ∀ running ∈ play.running, play.target.isAllocated running.head = true := fun running hrunning =>
    Bool.eq_true_of_not_eq_false fun hreleased => hwhole ⟨running, hrunning, hreleased⟩
  -- whatever else happens, all blocks stay
  have hdrift : ∀ {world : Faulty World} {running : List Running}, play.world.Drifts world.world →
      (∀ one ∈ running, play.target.isAllocated one.head = true) → ¬ (play.next world running).Broken := by
    rintro world running hdrifts hbefore ⟨one, hone, hreleased⟩
    have hsame := (hdrifts.target 0).shape.isAllocated one.head
    have := hsame.trans (hbefore one hone)
    exact absurd (hreleased.symm.trans this) Bool.false_ne_true
  cases hstep with
  | call request =>
    cases request with
    | shutdown => rfl
    | update =>
      obtain ⟨one, hone, hreleased⟩ := hbroken
      have hstays := haccounted.isAllocated_update hscene hfits (hallocated one hone)
      exact absurd (hreleased.symm.trans hstays) Bool.false_ne_true
  | enter world site base hleads hdrifts _ =>
    refine absurd hbroken (hdrift hdrifts fun one hone => ?_)
    rcases List.mem_cons.1 hone with rfl | hone
    · exact hleads.isAllocated
    · exact hallocated one hone
  | leave world inner outer hrunning _ hdrifts _ =>
    refine absurd hbroken (hdrift hdrifts fun one hone => hallocated one ?_)
    rw [hrunning]
    exact List.mem_cons_of_mem _ hone
  | drift world hdrifts => exact absurd hbroken (hdrift hdrifts hallocated)

/-- An engine that is shut down only while no wrapped call is running leaves the game whole. -/
theorem whole_of_run (hfresh : origin.Fresh)
    (hrun : Relation.ReflTransGen
      (fun play play' => Step origin play play' ∧ (play' = play.call .shutdown → play.running = []))
      (start origin hidden config) play)
    (hfits : play.target.Fits) : ¬ play.Broken := by
  induction hrun with
  | refl => nofun
  | tail hrun hstep ih =>
    obtain ⟨hstep, hidle⟩ := hstep
    have hsteps : Relation.ReflTransGen (Step origin) (start origin hidden config) _ :=
      hrun.lift id fun _ _ hstep => hstep.1
    have hsolo := solo_of_run hsteps
    obtain ⟨scene, hscene⟩ := Solo.exists_on hfresh hsolo
    have hwhole := ih (hfits.of_step (hscene.target_step hstep.solo))
    intro hbroken
    have hshutdown := shutdown_of_broken hscene (Solo.accounted_of_run hfresh hsolo) hstep hfits hwhole hbroken
    obtain ⟨running, hrunning, -⟩ := hbroken
    have hidle : running ∈ ([] : List Running) := by
      rw [hshutdown] at hrunning
      exact hidle hshutdown ▸ hrunning
    cases hidle

/-! ### Shutdowns -/

/-- **A shutdown while a wrapped call is running.** When a shutdown releases the block, no site leads anywhere, so no
call can enter a block any more. But a shutdown that meets no failure always releases the block, and this breaks the
game if a call is running there. -/
theorem release_of_run (hfresh : origin.Fresh)
    (hrun : Relation.ReflTransGen (Step origin) (start origin hidden config) play) {session : Session Handle}
    (hsession : play.solo.engine.session = some session) (hwhole : ¬ play.Broken)
    (hfits : (play.call .shutdown).target.Fits) :
    ((play.call .shutdown).target.isAllocated session.head = false →
      ∀ site base, ¬ origin.Leads (play.call .shutdown).target site base) ∧
    ((∀ access ∈ play.solo.accesses .shutdown, access.succeeds = true) →
      (play.call .shutdown).target.isAllocated session.head = false) ∧
    ((play.call .shutdown).Broken ↔ (play.call .shutdown).target.isAllocated session.head = false ∧
      ∃ running ∈ play.running, running.head = session.head) := by
  have hsolo := solo_of_run hrun
  obtain ⟨scene, hscene⟩ := Solo.exists_on hfresh hsolo
  have haccounted := Solo.accounted_of_run hfresh hsolo
  have hledger := (haccounted.booked hscene hsession).ledger
  have hbefore : play.target.Fits := hfits.of_step (hscene.step_call .shutdown)
  have hafter := haccounted.restored hscene hsession
  -- if the block is still there, then all blocks are
  have hstays : ∀ {changed : Site → Prop} {base : UInt32},
      origin.Ledger session.build changed (play.solo.left ++ [session.head]) (play.call .shutdown).target →
      play.target.isAllocated base = true → (play.call .shutdown).target.isAllocated base = true := fun hkept hbase =>
    (Target.isAllocated_iff (hkept.blocks hfits)).2 ((Target.isAllocated_iff (hledger.blocks hbefore)).1 hbase)
  have hhead : play.target.isAllocated session.head = true :=
    (Target.isAllocated_iff (hledger.blocks hbefore)).2 (List.mem_append_right _ (List.mem_singleton_self _))
  refine ⟨fun hreleased site base => ?_, fun hsucceeds => ?_, ?_⟩
  · rcases hafter with ⟨-, hclean⟩ | ⟨-, -, changed, hkept⟩
    · obtain ⟨hown, hintact⟩ := hclean.intact hfits
      exact hown.not_leads (hintact site id)
    · exact absurd (hreleased.symm.trans (hstays hkept hhead)) Bool.false_ne_true
  · rcases hafter with ⟨-, hclean⟩ | ⟨⟨access, haccess, hfails⟩, -⟩
    · refine Bool.eq_false_of_not_eq_true fun hstill => ?_
      have hmem := (Target.isAllocated_iff (hclean.blocks hfits)).1 hstill
      exact (List.nodup_append.1 (hledger.nodup hbefore)).2.2 _ hmem _ (List.mem_singleton_self _) rfl
    · exact absurd (hfails.symm.trans (hsucceeds access haccess)) Bool.false_ne_true
  · constructor
    · rintro ⟨running, hrunning, hreleased⟩
      have hallocated : play.target.isAllocated running.head = true :=
        Bool.eq_true_of_not_eq_false fun hnone => hwhole ⟨running, hrunning, hnone⟩
      rcases hafter with ⟨-, hclean⟩ | ⟨-, -, changed, hkept⟩
      · -- all blocks but one are still there
        have hmem := (Target.isAllocated_iff (hledger.blocks hbefore)).1 hallocated
        rcases List.mem_append.1 hmem with hleft | hlast
        · have hstill := (Target.isAllocated_iff (hclean.blocks hfits)).2 hleft
          exact absurd (hreleased.symm.trans hstill) Bool.false_ne_true
        · have hsame := List.mem_singleton.1 hlast
          exact ⟨hsame ▸ hreleased, running, hrunning, hsame⟩
      · exact absurd (hreleased.symm.trans (hstays hkept hallocated)) Bool.false_ne_true
    · rintro ⟨hreleased, running, hrunning, hsame⟩
      exact ⟨running, hrunning, hsame ▸ hreleased⟩

/-! ### A shutdown in the middle of a wrapped call -/

/-- The loading flags of all blocks are raised. -/
def raise (t : Target) : Target := { t with blocks := t.blocks.map fun block => block.write block.base [Flag.busy] }

private theorem drifts_raise (t : Target) : t.Drifts (raise t) := by
  refine ⟨rfl, rfl, List.forall₂_same.2 fun _ _ => ⟨rfl, fun _ _ => rfl⟩, ?_⟩
  refine List.forall₂_map_right_iff.2 (List.forall₂_same.2 fun block _ => ⟨rfl, fun i hne => ?_⟩)
  have hpos : ¬ (block.base - block.base ≤ i ∧ i < block.base - block.base + [Flag.busy].length) := by
    simp only [List.length_singleton]
    omega
  exact if_neg hpos

def raised (w : Faulty World) : Faulty World := { w with world := w.world.setTarget 0 (raise (w.world.target 0)) }

private theorem drifts_raised (w : Faulty World) : w.world.Drifts (raised w).world := by
  refine ⟨List.length_set .., fun slot => ?_⟩
  unfold raised
  rw [World.target_setTarget]
  split
  · rename_i hslot
    rw [hslot.1]
    exact drifts_raise _
  · exact .refl _

def hooked : Play := (start Scene.retailGame false {}).call .update

/-- The game's main function was called, and it has not returned yet. -/
def inGame : Play := hooked.next (raised hooked.solo.state.world) [⟨.game, 0x1000000⟩]

private theorem leads_hooked : Scene.retailGame.Leads hooked.target .game 0x1000000 := by
  refine ⟨.retail, by simp [Build.known], ⟨by decide +kernel, 0, by decide +kernel⟩, ⟨.game, 1, 56⟩, by decide +kernel,
    rfl, by decide, by decide +kernel, 0xBFC4B3, [0x83, 0xEC, 0x28, 0x56, 0x8B], 0xF1, by decide +kernel,
    by decide +kernel, by decide +kernel⟩

private theorem run_inGame : Relation.ReflTransGen (Step Scene.retailGame) (start Scene.retailGame false {}) inGame :=
  (Relation.ReflTransGen.refl.tail (.call (start Scene.retailGame false {}) .update)).tail
    (.enter hooked _ .game 0x1000000 leads_hooked (drifts_raised _) (by decide +kernel))

/-- The run and the shutdown, evaluated. -/
private theorem seen_inGame :
    inGame.solo.engine.session.map (·.head) = some 0x1000000 ∧ inGame.target.exited = false ∧
    inGame.target.peek? 0x1000000 1 = some [Flag.busy] ∧ inGame.target.isAllocated 0x1000000 = true ∧
    (∀ access ∈ inGame.solo.accesses .shutdown, access.succeeds = true) ∧
    (inGame.call .shutdown).target.isAllocated 0x1000000 = false := by
  decide +kernel

/-- The call that is running will return to nowhere. -/
theorem release_of_run_in_game : (inGame.call .shutdown).Broken := by
  obtain ⟨hhead, -, -, hallocated, hsucceeds, -⟩ := seen_inGame
  obtain ⟨session, hsession, hhead⟩ := Option.map_eq_some_iff.1 hhead
  have hfits : (inGame.call .shutdown).target.Fits :=
    Target.fits_of_extents (by decide +kernel) (by decide +kernel) (by decide +kernel)
  have hwhole : ¬ inGame.Broken := by
    rintro ⟨running, hrunning, hreleased⟩
    rw [List.mem_singleton.1 hrunning] at hreleased
    exact absurd (hreleased.symm.trans hallocated) Bool.false_ne_true
  obtain ⟨-, hreleased, hbroken⟩ := release_of_run ⟨rfl, rfl⟩ run_inGame hsession hwhole hfits
  exact hbroken.2 ⟨hreleased hsucceeds, _, List.mem_singleton_self _, hhead.symm⟩

/-- A shutdown can release the block while its flag is raised and a wrapped call is running there. -/
theorem released_under_call : ∃ play,
    Relation.ReflTransGen (Step Scene.retailGame) (start Scene.retailGame false {}) play ∧
    play.target.exited = false ∧ play.target.peek? 0x1000000 1 = some [Flag.busy] ∧
    (∃ running ∈ play.running, running.head = 0x1000000) ∧ play.target.isAllocated 0x1000000 = true ∧
    (play.call .shutdown).target.isAllocated 0x1000000 = false := by
  obtain ⟨-, halive, hflag, hallocated, -, hreleased⟩ := seen_inGame
  exact ⟨inGame, run_inGame, halive, hflag, ⟨_, List.mem_singleton_self _, rfl⟩, hallocated, hreleased⟩

end Play

end LoadRemover.InMemory
