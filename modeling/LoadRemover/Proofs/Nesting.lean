import Mathlib.Logic.Relation
import LoadRemover.Proofs.Transparency

/-!
# Wrapped calls inside wrapped calls

A wrapped function may call other wrapped functions. In a `Course` the game's own code runs and wrapped functions are
entered and left through the hooks of a session. Only the innermost call that is running can return, so the entries
and returns are properly nested (`Nested`).

The wrappers do not count. A call raises the flag, and its return leaves the end value of its site there, whatever
else is running. So the flag tells the latest entry or return, and no more (`Platform.flag_of_course`):

* after the outermost call the flag is the end value of its site, and a raised flag tells of a call that is running;
* but the return of an inner call lowers the flag while the outer call is still running (`flag_down_under_call`).

The invariant is `Course.Good`. It is kept by each step, and a call that begins always gets through its hook, as does
one that returns.
-/

namespace LoadRemover

open X86

/-! ### Entries and returns -/

/-- A wrapped function is entered, or it returns. -/
inductive Passage where
  | entered (site : Site)
  | returned (site : Site)
deriving DecidableEq

/-- What a passage leaves in the flag. -/
def Passage.flag : Passage → UInt8
  | entered _ => Flag.busy
  | returned site => site.endValue

/-- The flag after some passages, the latest first. -/
def flagAfter : List Passage → UInt8
  | [] => Flag.idle
  | passage :: _ => passage.flag

/-- The wrapped calls that are running after some passages, the innermost first. The latest passage is the first one,
and the call that returns is always the innermost. -/
inductive Nested : List Site → List Passage → Prop
  | start : Nested [] []
  | entered {running : List Site} {passages : List Passage} (site : Site) (h : Nested running passages) :
    Nested (site :: running) (.entered site :: passages)
  | returned {running : List Site} {passages : List Passage} {site : Site} (h : Nested (site :: running) passages) :
    Nested running (.returned site :: passages)

private theorem flag_returned_ne_busy (site : Site) : (Passage.returned site).flag ≠ Flag.busy := by
  cases site <;> decide

namespace Nested

variable {running : List Site} {passages : List Passage}

/-- The flag is raised exactly if the latest passage is an entry. -/
private theorem flag_eq_busy_iff (h : Nested running passages) :
    flagAfter passages = Flag.busy ↔ ∃ site earlier, passages = .entered site :: earlier := by
  cases h with
  | start => exact ⟨nofun, nofun⟩
  | entered site h => exact ⟨fun _ => ⟨site, _, rfl⟩, fun _ => rfl⟩
  | @returned _ _ site h => exact ⟨fun hbusy => absurd hbusy (flag_returned_ne_busy site), nofun⟩

/-- A raised flag tells of a call that is running: the one that was entered last. -/
private theorem running_of_busy (h : Nested running passages) (hbusy : flagAfter passages = Flag.busy) :
    running ≠ [] := by
  obtain ⟨site, earlier, rfl⟩ := h.flag_eq_busy_iff.1 hbusy
  cases h
  exact List.cons_ne_nil _ _

/-- When no call is running, none was made yet, or the one that returned last was running alone. -/
private theorem of_nothing_running (h : Nested [] passages) :
    passages = [] ∨ ∃ site earlier, passages = .returned site :: earlier ∧ Nested [site] earlier := by
  cases h with
  | start => exact .inl rfl
  | returned h => exact .inr ⟨_, _, rfl, h⟩

/-- While calls are running, the flag is lowered exactly if a call that was made in the innermost of them has returned
and none was entered since. -/
private theorem flag_ne_busy_iff (h : Nested running passages) (hrunning : running ≠ []) :
    flagAfter passages ≠ Flag.busy ↔
      ∃ site earlier, passages = .returned site :: earlier ∧ Nested (site :: running) earlier := by
  cases h with
  | start => exact absurd rfl hrunning
  | entered site h => exact ⟨fun hlowered => absurd rfl hlowered, nofun⟩
  | returned h => exact ⟨fun _ => ⟨_, _, rfl, h⟩, fun _ => flag_returned_ne_busy _⟩

end Nested

/-! ### Courses -/

/-- A wrapped call that is running: its site, the address in the wrapper to which it returns, and the top of the stack
when it began. -/
structure Pending where
  site : Site
  back : UInt32
  top : UInt32

/-- The machine, the wrapped calls that are running, the innermost first, and what has passed, the latest first. -/
structure Course where
  machine : Machine
  pending : List Pending := []
  passages : List Passage := []

def Course.running (course : Course) : List Site := course.pending.map (·.site)

namespace Session

variable {π : Type} (session : Session π)

/-- The first instructions of the wrapped function at the site. -/
def own (site : Site) : Code := preamble site session.build session.moduleBase

/-- The stack of a call at the site does not reach into the block or the sites. -/
def Clear (site : Site) (top : UInt32) : Prop := ∀ a, StackArea top site.stackArgs.toNat a → ¬ session.Owns a

/-- The number of instructions from the entry point of a site through its hook to the function's own code. -/
def entrySteps (site : Site) : Nat :=
  Hook.entrySteps site.stackArgs.toNat (((sweep? (session.own site).bytes).getD []).map (·.2))

end Session

/-- One step of a course. The game's own code does not write to the block or to the sites. A call at the entry point of
a site runs through the hook; the return address that the wrapper has pushed says where it comes back. -/
inductive Course.Step {π : Type} (session : Session π) : Course → Course → Prop
  | work (course : Course) (machine : Machine)
      (h : ∀ a, session.Owns a → machine.memory a = course.machine.memory a) :
      Step session course { course with machine }
  | enter (course : Course) (site : Site) (machine : Machine)
      (hentry : course.machine.instruction = (session.own site).base) (hclear : session.Clear site course.machine.top)
      (hrun : Machine.run? (session.entrySteps site) course.machine = some machine) :
      Step session course {
        machine
        pending := ⟨site, machine.memory.word (course.machine.top - UInt32.ofNat (4 * (site.stackArgs.toNat + 1))),
          course.machine.top⟩ :: course.pending
        passages := .entered site :: course.passages }
  | leave (course : Course) (inner : Pending) (outer : List Pending) (machine : Machine)
      (hpending : course.pending = inner :: outer) (hback : course.machine.instruction = inner.back)
      (htop : course.machine.top = inner.top) (hrun : Machine.run? 2 course.machine = some machine) :
      Step session course { machine, pending := outer, passages := .returned inner.site :: course.passages }

/-- What attaching has left in memory: a hook for each site, and the lowered flag. -/
structure Session.Installed {π : Type} (session : Session π) (live : Memory) : Prop where
  hook : ∀ site, ∃ hook : Hook (Behind session.head (Head.build session.snapshots).code.size) live,
    hook.Serves (session.own site) site session.flag ∧ live.Holds hook.entry hook.redirection
  code : ∀ site a, Behind session.head (Head.build session.snapshots).code.size a ∨ Within (session.own site).base 6 a →
    session.Owns a ∧ a ≠ session.flag
  flag : session.Owns session.flag
  idle : live session.flag = Flag.idle

/-- The block and the sites are as attaching has left them, but for the flag, which tells the latest passage. Each
running call comes back into the wrapper of its site. -/
structure Course.Good {π : Type} (session : Session π) (live : Memory) (course : Course) : Prop where
  intact : ∀ a, session.Owns a → a ≠ session.flag → course.machine.memory a = live a
  flag : course.machine.memory session.flag = flagAfter course.passages
  nested : Nested course.running course.passages
  pending : ∀ call ∈ course.pending, session.Clear call.site call.top ∧
    ∃ hook : Hook (Behind session.head (Head.build session.snapshots).code.size) live,
      hook.Serves (session.own call.site) call.site session.flag ∧ call.back = hook.back

/-! ### What attaching has left -/

section Attached

variable {σ π : Type} {platform : Platform σ π} {process : π} {build : Build} {moduleBase : UInt32}

private theorem Session.installed_of_attach (view : MemoryView platform process) (hbuild : build ∈ Build.known)
    {s s' : Traced σ} {session : Session π} (hvalid : view.valid s.world)
    (hattach : (platform.attach ⟨process, build, moduleBase, build.snapshots moduleBase⟩).outcome s = (.ok session, s'))
    (hblock : ∀ t ∈ session.snapshots,
      Apart session.head (Head.build session.snapshots).code.size t.code.base t.code.size) :
    session.Installed (view.memory s'.world) := by
  have hstart := MemoryView.ensures_attach ⟨process, build, moduleBase, build.snapshots moduleBase⟩ view s hvalid
  rw [hattach] at hstart
  obtain ⟨base, hsession, before, hlive⟩ := hstart
  have hsize := size_build build moduleBase
  obtain ⟨hhead, hflag, hsnapshots, hown⟩ : session.head = base ∧ session.flag = base ∧
      session.snapshots = build.snapshots moduleBase ∧ ∀ site, session.own site = preamble site build moduleBase := by
    rw [hsession]
    exact ⟨rfl, UInt32.add_zero base, rfl, fun _ => rfl⟩
  rw [hhead, hsnapshots, hsize] at hblock
  have happart : ∀ t ∈ build.snapshots moduleBase, Apart base 162 t.code.base 6 := by
    intro t ht
    obtain ⟨site, -, rfl⟩ := List.mem_map.1 ht
    have := hblock _ ht
    rwa [size_preamble] at this
  have hbase : Within base 162 base := by simp [Within]
  have howns : ∀ a, session.Owns a ↔
      Within base 162 a ∨ ∃ t ∈ build.snapshots moduleBase, Within t.code.base t.code.size a := by
    intro a
    rw [Session.Owns, hhead, hsnapshots, hsize]
  refine ⟨fun site => ?_, fun site a ha => ?_, ?_, ?_⟩
  · obtain ⟨layout, -, -, hook, hserves, hredirect, -⟩ := exists_site_hook hbuild hlive happart site
    rw [hhead, hsnapshots, hsize, hflag, hown]
    exact ⟨hook, hserves, hredirect⟩
  · have hsite := build.mem_snapshots moduleBase site
    rw [hhead, hsnapshots, hsize, hown] at ha
    rw [howns, hflag]
    rcases ha with ⟨hne, hin⟩ | hin
    · exact ⟨.inl hin, hne⟩
    · refine ⟨.inr ⟨_, hsite, ?_⟩, ?_⟩
      · rwa [size_preamble]
      · rintro rfl
        exact happart _ hsite _ hbase hin
  · rw [howns, hflag]
    exact .inl hbase
  · -- the block begins with the flag
    have hpatches := Head.holds_patches _ (by rw [size_placed]; omega)
      (pairwise_patches hbuild moduleBase base happart) before
    have hbegins := Head.continues_buildAt base (build.snapshots moduleBase)
    rw [← Head.moveTo_build (build.fit_snapshots moduleBase)] at hbegins
    obtain ⟨rest, hrest⟩ := hbegins.bytes
    have hlowered := hpatches.1
    rw [Head.placed, ← hrest, hbegins.base] at hlowered
    have hfirst := Memory.holds_iff.1 hlowered.append.1 0 Nat.one_pos
    rw [hflag, hlive]
    exact (congrArg _ (UInt32.add_zero base).symm).trans hfirst

end Attached

/-! ### Steps -/

namespace Course.Good

variable {π : Type} {session : Session π} {live : Memory} {course course' : Course}

/-- A call that begins gets through its hook. -/
private theorem exists_enter (hinstalled : session.Installed live) (h : course.Good session live) (site : Site)
    (hentry : course.machine.instruction = (session.own site).base) (hclear : session.Clear site course.machine.top) :
    ∃ machine, Machine.run? (session.entrySteps site) course.machine = some machine ∧ Good session live {
      machine
      pending := ⟨site, machine.memory.word (course.machine.top - UInt32.ofNat (4 * (site.stackArgs.toNat + 1))),
        course.machine.top⟩ :: course.pending
      passages := .entered site :: course.passages } := by
  obtain ⟨hook, hserves, hredirect⟩ := hinstalled.hook site
  obtain ⟨operations, hreads, hstack, -, hdepth⟩ := reads_preamble site session.build session.moduleBase
  have hargs := stackArgs_le_one site
  have hsteps : session.entrySteps site = Hook.entrySteps hook.args operations := by
    obtain ⟨swept, hswept, hmap⟩ := Option.map_eq_some_iff.1 hreads.sweep?
    rw [Session.entrySteps, Session.own, hswept, Option.getD_some, hmap, hserves.args]
  -- what is owned is intact and not on the stack
  have howned : ∀ a, session.Owns a → a ≠ session.flag →
      course.machine.memory a = live a ∧ Untouched hook.flag course.machine.top 52 a := by
    intro a howns hne
    exact ⟨h.intact a howns hne, hserves.flag ▸ hne, fun hbelow => hclear a (.inl hbelow) howns⟩
  have hcode : ∀ a,
      Behind session.head (Head.build session.snapshots).code.size a ∨ Within (session.own site).base 6 a →
      course.machine.memory a = live a ∧ Untouched hook.flag course.machine.top 52 a := by
    intro a ha
    obtain ⟨howns, hne⟩ := hinstalled.code site a ha
    exact howned a howns hne
  have hjump : course.machine.memory.Holds hook.entry hook.redirection := by
    refine hredirect.congr fun i hi => (hcode _ (.inr ?_)).1
    have hi : i < 5 := hi
    rw [hserves.entry]
    exact within_add (by omega) (by omega)
  have hflag : ¬ StackArea course.machine.top site.stackArgs.toNat hook.flag := by
    rw [hserves.flag]
    exact fun hin => hclear _ hin hinstalled.flag
  rw [← Session.own, ← hserves.own] at hreads
  obtain ⟨machine, hrun, hraised, hback, hmemory⟩ := hook.exists_enter (n := 52) (fun a ha => (hcode a (.inl ha)).1)
    (hentry.trans hserves.entry.symm) hjump hreads hstack (by rw [hserves.args]; omega) (by omega)
    (by rw [hserves.args]; omega) (fun a ha => (hcode a (.inl ha)).2) (fun hin => hflag (.inl hin))
    fun hin => hflag (.inr (by rwa [hserves.args] at hin))
  rw [← hsteps] at hrun
  rw [hserves.flag] at hraised
  rw [hserves.args] at hback
  refine ⟨machine, hrun, fun a howns hne => ?_, hraised, .entered site h.nested, List.forall_mem_cons.2 ⟨?_, h.pending⟩⟩
  · obtain ⟨hintact, huntouched⟩ := howned a howns hne
    exact (hmemory a huntouched).trans hintact
  · exact ⟨hclear, hook, hserves, hback⟩

/-- A call that returns gets through the rest of its wrapper. -/
private theorem exists_leave (hinstalled : session.Installed live) (h : course.Good session live) {inner : Pending}
    {outer : List Pending} (hpending : course.pending = inner :: outer)
    (hback : course.machine.instruction = inner.back) (htop : course.machine.top = inner.top) :
    ∃ machine, Machine.run? 2 course.machine = some machine ∧ Good session live
      { machine, pending := outer, passages := .returned inner.site :: course.passages } := by
  have hcalls := h.pending
  rw [hpending] at hcalls
  obtain ⟨⟨hclear, hook, hserves, hreturn⟩, houter⟩ := List.forall_mem_cons.1 hcalls
  have hargs := stackArgs_le_one inner.site
  have hcode : ∀ a, Behind session.head (Head.build session.snapshots).code.size a →
      course.machine.memory a = live a ∧ a ≠ hook.flag := by
    intro a ha
    obtain ⟨howns, hne⟩ := hinstalled.code inner.site a (.inl ha)
    exact ⟨h.intact a howns hne, hserves.flag ▸ hne⟩
  have hflag : ¬ Within course.machine.top 4 hook.flag := by
    rw [htop, hserves.flag]
    exact fun hin => hclear _ (.inr (Nat.lt_of_lt_of_le hin (by omega))) hinstalled.flag
  obtain ⟨machine, hrun, -, -, -, hmemory⟩ := hook.run?_leave (fun a ha => (hcode a ha).1) (hback.trans hreturn)
    (by rw [hserves.args]; omega) (fun a ha => (hcode a ha).2) hflag
  rw [hserves.flag, hserves.endValue] at hmemory
  refine ⟨machine, hrun, fun a howns hne => ?_, ?_, .returned ?_, houter⟩
  · have hstore : ¬ Within session.flag [inner.site.endValue].length a := fun hin => hne hin.eq_of_one
    rw [hmemory, Memory.store_apart hstore]
    exact h.intact a howns hne
  · rw [hmemory]
    simp [Memory.store, flagAfter, Passage.flag]
  · have hnested := h.nested
    rw [running, hpending] at hnested
    exact hnested

private theorem step (hinstalled : session.Installed live) (h : course.Good session live)
    (hstep : Step session course course') : course'.Good session live := by
  cases hstep with
  | work machine hsame =>
    refine ⟨fun a howns hne => (hsame a howns).trans (h.intact a howns hne), ?_, h.nested, h.pending⟩
    exact (hsame _ hinstalled.flag).trans h.flag
  | enter site machine hentry hclear hrun =>
    obtain ⟨machine', hrun', hgood⟩ := h.exists_enter hinstalled site hentry hclear
    obtain rfl : machine = machine' := Option.some.inj (hrun.symm.trans hrun')
    exact hgood
  | leave inner outer machine hpending hback htop hrun =>
    obtain ⟨machine', hrun', hgood⟩ := h.exists_leave hinstalled hpending hback htop
    obtain rfl : machine = machine' := Option.some.inj (hrun.symm.trans hrun')
    exact hgood

private theorem of_run {machine : Machine} (hinstalled : session.Installed live)
    (hmemory : ∀ a, session.Owns a → machine.memory a = live a)
    (hrun : Relation.ReflTransGen (Step session) { machine } course) : course.Good session live := by
  induction hrun with
  | refl =>
    refine ⟨fun a howns _ => hmemory a howns, ?_, .start, nofun⟩
    exact (hmemory _ hinstalled.flag).trans hinstalled.idle
  | tail _ hstep ih => exact ih.step hinstalled hstep

/-- A call that was made in another one can return before that one does, and then the flag is what the inner call has
left. -/
private theorem exists_inner_return {machine : Machine} (hinstalled : session.Installed live)
    (hmemory : ∀ a, session.Owns a → machine.memory a = live a) (outer inner : Site)
    (hentry : machine.instruction = (session.own outer).base) (hclear : session.Clear outer machine.top) {top : UInt32}
    (hclear' : session.Clear inner top) :
    ∃ course, Relation.ReflTransGen (Step session) { machine } course ∧ course.running = [outer] ∧
      course.machine.memory session.flag = inner.endValue := by
  have hgood : Good session live { machine } := of_run hinstalled hmemory .refl
  obtain ⟨machine₁, hrun₁, hgood₁⟩ := hgood.exists_enter hinstalled outer hentry hclear
  have hsteps₁ : Relation.ReflTransGen (Step session) { machine } _ :=
    Relation.ReflTransGen.refl.tail (.enter _ outer machine₁ hentry hclear hrun₁)
  -- the outer call goes to the entry point of the inner one, with the stack at `top`
  have hsteps₂ := hsteps₁.tail (.work _ ((machine₁.set .esp top).goTo (session.own inner).base) fun _ _ => rfl)
  have hgood₂ := of_run hinstalled hmemory hsteps₂
  have htop : ((machine₁.set .esp top).goTo (session.own inner).base).top = top := machine₁.register_set_self .esp top
  obtain ⟨machine₃, hrun₃, hgood₃⟩ := hgood₂.exists_enter hinstalled inner rfl (by rw [htop]; exact hclear')
  have hsteps₃ := hsteps₂.tail (.enter _ inner machine₃ rfl (by rw [htop]; exact hclear') hrun₃)
  -- and the inner call comes back
  obtain ⟨back, hback⟩ : ∃ back, back =
      machine₃.memory.word (((machine₁.set .esp top).goTo (session.own inner).base).top -
        UInt32.ofNat (4 * (inner.stackArgs.toNat + 1))) := ⟨_, rfl⟩
  have hsteps₄ := hsteps₃.tail (.work _ ((machine₃.set .esp top).goTo back) fun _ _ => rfl)
  have hgood₄ := of_run hinstalled hmemory hsteps₄
  have htop' : ((machine₃.set .esp top).goTo back).top = top := machine₃.register_set_self .esp top
  obtain ⟨machine₅, hrun₅, hgood₅⟩ := hgood₄.exists_leave hinstalled rfl hback (htop'.trans htop.symm)
  exact ⟨_, hsteps₄.tail (.leave _ _ _ machine₅ rfl hback (htop'.trans htop.symm) hrun₅), rfl, hgood₅.flag⟩

end Course.Good

/-! ### The flag -/

/-- **The flag and the running calls.** After a successful attempt to attach, whichever wrapped functions the game
enters and leaves, in whichever nesting:

* the flag is what the latest entry or return has left there;
* if it is raised, a wrapped call is running;
* when none is running any more, it is the end value of the site of the outermost call, the one that returned last;
* while calls are running, it is lowered exactly if a call that was made in the innermost of them has returned and
  none was entered since;
* each call that begins gets through its hook, and so does each that returns.

The stack of a call must not reach into the block or the sites, and the game's own code must not write there. -/
theorem Platform.flag_of_course {σ π : Type} {platform : Platform σ π} {process : π}
    (view : MemoryView platform process) {build : Build} (hbuild : build ∈ Build.known) (moduleBase : UInt32)
    {s s' : Traced σ} {session : Session π} (hvalid : view.valid s.world)
    (hattach : (platform.attach ⟨process, build, moduleBase, build.snapshots moduleBase⟩).outcome s = (.ok session, s'))
    (hblock : ∀ t ∈ session.snapshots,
      Apart session.head (Head.build session.snapshots).code.size t.code.base t.code.size)
    {machine : Machine} (hmemory : ∀ a, session.Owns a → machine.memory a = view.memory s'.world a) {course : Course}
    (hrun : Relation.ReflTransGen (Course.Step session) { machine } course) :
    let flag := course.machine.memory session.flag
    (Nested course.running course.passages ∧ flag = flagAfter course.passages) ∧
    (flag = Flag.busy → course.running ≠ []) ∧
    (course.running = [] → course.passages = [] ∧ flag = Flag.idle ∨
      ∃ site earlier, course.passages = .returned site :: earlier ∧ Nested [site] earlier ∧ flag = site.endValue) ∧
    (course.running ≠ [] → (flag ≠ Flag.busy ↔
      ∃ site earlier, course.passages = .returned site :: earlier ∧ Nested (site :: course.running) earlier)) ∧
    (∀ site, course.machine.instruction = (session.own site).base → session.Clear site course.machine.top →
      ∃ course', Course.Step session course course' ∧ course'.running = site :: course.running ∧
        course'.passages = .entered site :: course.passages) ∧
    ∀ inner outer, course.pending = inner :: outer → course.machine.instruction = inner.back →
      course.machine.top = inner.top → ∃ course', Course.Step session course course' ∧ course'.pending = outer ∧
        course'.passages = .returned inner.site :: course.passages := by
  have hinstalled := Session.installed_of_attach view hbuild hvalid hattach hblock
  have hgood := Course.Good.of_run hinstalled hmemory hrun
  intro flag
  have hflag : flag = flagAfter course.passages := hgood.flag
  refine ⟨⟨hgood.nested, hflag⟩, ?_, fun hnone => ?_, ?_, fun site hentry hclear => ?_,
    fun inner outer hpending hback htop => ?_⟩
  · rw [hflag]
    exact hgood.nested.running_of_busy
  · have hnested := hgood.nested
    rw [hnone] at hnested
    rw [hflag]
    rcases hnested.of_nothing_running with hempty | ⟨site, earlier, hpassages, houtermost⟩
    · exact .inl ⟨hempty, by rw [hempty]; rfl⟩
    · exact .inr ⟨site, earlier, hpassages, houtermost, by rw [hpassages]; rfl⟩
  · rw [hflag]
    exact hgood.nested.flag_ne_busy_iff
  · obtain ⟨machine', hsteps, -⟩ := hgood.exists_enter hinstalled site hentry hclear
    exact ⟨_, .enter course site machine' hentry hclear hsteps, rfl, rfl⟩
  · obtain ⟨machine', hsteps, -⟩ := hgood.exists_leave hinstalled hpending hback htop
    exact ⟨_, .leave course inner outer machine' hpending hback htop hsteps, rfl, rfl⟩

/-! #### In a process that is all memory -/

private theorem exists_flatSession : ∃ session, flatOutcome = (.ok session, flatOutcome.2) ∧ session.head = 0x1000000 ∧
    session.build = .retail ∧ session.moduleBase = 0x400000 ∧ session.snapshots = Build.retail.snapshots 0x400000 := by
  have hhead : flatOutcome.1.toOption.map (·.head) = some 0x1000000 := by decide +kernel
  have hstart := MemoryView.ensures_attach ⟨(), Build.retail, 0x400000, Build.retail.snapshots 0x400000⟩ flatView
    ⟨fun _ => 0, []⟩ True.intro
  cases hresult : flatOutcome.1 with
  | error failure =>
    rw [hresult] at hhead
    exact nomatch hhead
  | ok session =>
    have houtcome : (flatPlatform.attach ⟨(), Build.retail, 0x400000, Build.retail.snapshots 0x400000⟩).outcome
        ⟨fun _ => 0, []⟩ = (.ok session, flatOutcome.2) := Prod.ext hresult rfl
    rw [houtcome] at hstart
    obtain ⟨base, rfl, -⟩ := hstart
    rw [hresult] at hhead
    exact ⟨_, Prod.ext hresult rfl, Option.some.inj hhead, rfl, rfl, rfl⟩

private theorem flat_sites : ∀ t ∈ Build.retail.snapshots 0x400000,
    0x403860 ≤ t.code.base.toNat ∧ t.code.base.toNat ≤ 0x403B80 ∧ t.code.size = 6 := by
  decide

section Flat

variable {session : Session Unit} (hhead : session.head = 0x1000000)
  (hsnapshots : session.snapshots = Build.retail.snapshots 0x400000)
include hhead hsnapshots

private theorem flat_apart : ∀ t ∈ session.snapshots,
    Apart session.head (Head.build session.snapshots).code.size t.code.base t.code.size := by
  rw [hsnapshots, hhead, size_build]
  intro t ht
  obtain ⟨hlow, hhigh, hlength⟩ := flat_sites t ht
  rw [hlength]
  exact (apart_of_le (by simp; omega) (by decide)).symm

/-- A stack below the module is clear. -/
private theorem flat_clear (site : Site) {top : UInt32} (hlow : 52 ≤ top.toNat) (hhigh : top.toNat + 8 ≤ 0x400000) :
    session.Clear site top := by
  intro a ha howns
  have hargs := stackArgs_le_one site
  have hstart : (top - 52).toNat = top.toNat - 52 := UInt32.toNat_sub_of_le _ _ hlow
  have hin : Within (top - 52) 60 a := by
    rcases ha with hbelow | habove
    · exact Nat.lt_of_lt_of_le hbelow (by decide)
    · obtain ⟨i, hi, -, rfl⟩ := habove.exists
      have haddress : top + UInt32.ofNat i = top - 52 + UInt32.ofNat (52 + i) := by
        rw [UInt32.ofNat_add]
        grind
      rw [haddress]
      exact within_add (by omega) (by omega)
  rw [Session.Owns, hsnapshots, hhead, size_build] at howns
  rcases howns with hblock | ⟨t, ht, hsite⟩
  · exact apart_of_le (by rw [hstart]; simp; omega) (by decide) a hin hblock
  · obtain ⟨hfrom, hto, hlength⟩ := flat_sites t ht
    rw [hlength] at hsite
    exact apart_of_le (by rw [hstart]; omega) (by omega) a hin hsite

end Flat

/-- The machine that is about to call the game's main function, with the stack at `0x90000`. -/
def atGame : Machine := ⟨fun r => if r = .esp then 0x90000 else 0, 0x403B80, flatOutcome.2.world⟩

/-- The game's main function has been entered. -/
theorem flag_of_course_game : ∃ session, flatOutcome = (.ok session, flatOutcome.2) ∧
    ∃ course, Relation.ReflTransGen (Course.Step session) { machine := atGame } course ∧
      course.running = [.game] ∧ course.machine.memory session.flag = Flag.busy := by
  obtain ⟨session, hattach, hhead, hbuild, hbase, hsnapshots⟩ := exists_flatSession
  have hclear : session.Clear .game atGame.top := flat_clear hhead hsnapshots .game (by decide) (by decide)
  have hentry : atGame.instruction = (session.own .game).base := by
    rw [Session.own, hbuild, hbase]
    rfl
  have hflag := @Platform.flag_of_course _ _ flatPlatform () flatView Build.retail (by simp [Build.known]) 0x400000
    ⟨fun _ => 0, []⟩ flatOutcome.2 session True.intro hattach (flat_apart hhead hsnapshots) atGame (fun _ _ => rfl)
  obtain ⟨-, -, -, -, henter, -⟩ := hflag .refl
  obtain ⟨course, hstep, hrunning, hpassages⟩ := henter .game hentry hclear
  have hrun := Relation.ReflTransGen.refl.tail hstep
  obtain ⟨⟨-, hraised⟩, -⟩ := hflag hrun
  rw [hpassages] at hraised
  exact ⟨session, hattach, course, hrun, hrunning, hraised⟩

/-- A movie that is shown during the game's main function takes the flag down although that function is running. -/
theorem flag_down_under_call : ∃ session, flatOutcome = (.ok session, flatOutcome.2) ∧
    ∃ course, Relation.ReflTransGen (Course.Step session) { machine := atGame } course ∧
      course.running = [.game] ∧ course.machine.memory session.flag = Flag.idle := by
  obtain ⟨session, hattach, hhead, hbuild, hbase, hsnapshots⟩ := exists_flatSession
  have hclear : session.Clear .game atGame.top := flat_clear hhead hsnapshots .game (by decide) (by decide)
  have hentry : atGame.instruction = (session.own .game).base := by
    rw [Session.own, hbuild, hbase]
    rfl
  have hinstalled := Session.installed_of_attach flatView (by simp [Build.known]) True.intro hattach
    (flat_apart hhead hsnapshots)
  have hclear' : session.Clear .movie 0x8F000 := flat_clear hhead hsnapshots .movie (by decide) (by decide)
  obtain ⟨course, hrun, hrunning, hflag⟩ := Course.Good.exists_inner_return hinstalled (fun _ _ => rfl) .game .movie
    hentry hclear hclear'
  exact ⟨session, hattach, course, hrun, hrunning, hflag⟩

end LoadRemover
