import LoadRemover.Proofs.Custody
import LoadRemover.Proofs.Erasing

/-!
# What is done to processes

Of all that a platform offers three things can change a process: a write, an allocation and a release. In a world with
`Deeds` these are written down, each with the process that it was meant for, also when it has failed. So it can be said
of any platform what an engine does:

* a poll does nothing, and neither does a shutdown that finds the process ended (`Call.deeds_of_poll`,
  `Call.deeds_of_ended`);
* attaching and restoring are `Proper`: all deeds are meant for one process, and a write does not go beyond a site of
  this process or a block that was allocated there (`Deeds.ensures_attach`, `Deeds.ensures_restore`).
-/

namespace LoadRemover

variable {σ π α : Type}

/-! ### Deeds -/

/-- Something that was tried and may have changed a process. -/
inductive Deed (π : Type) where
  | write (process : π) (address : UInt32) (bytes : Bytes)
  | allocate (process : π) (size : Nat) (result : Except Failure UInt32)
  | free (process : π) (address : UInt32)

namespace Deed

/-- Whom it was meant for. -/
def process : Deed π → π
  | write process _ _ => process
  | allocate process _ _ => process
  | free process _ => process

end Deed

/-- The address at which a site begins. -/
def Candidate.entry (candidate : Candidate π) (site : Site) : UInt32 :=
  candidate.moduleBase + (candidate.build.entry site).offset

/-- The deed is one of those that patching this candidate needs. What is written fits into a site, or into a block
that was allocated before, and only such a block is released. -/
def Deed.Permitted (candidate : Candidate π) (earlier : List (Deed π)) (deed : Deed π) : Prop :=
  deed.process = candidate.process ∧
    match deed with
    | write process address bytes =>
      (∃ site, address = candidate.entry site ∧ bytes.length ≤ 6) ∨
        ∃ size, allocate process size (.ok address) ∈ earlier ∧ bytes.length ≤ size
    | allocate _ _ _ => True
    | free process address => ∃ size, allocate process size (.ok address) ∈ earlier

/-- Each deed was permitted after those before it. -/
inductive Proper (candidate : Candidate π) (past : List (Deed π)) : List (Deed π) → Prop
  | nil : Proper candidate past []
  | concat {deeds : List (Deed π)} {deed : Deed π} (h : Proper candidate past deeds)
      (hdeed : deed.Permitted candidate (past ++ deeds)) : Proper candidate past (deeds ++ [deed])

namespace Proper

variable {candidate : Candidate π} {past deeds : List (Deed π)} {deed : Deed π}

theorem of_concat (h : Proper candidate past (deeds ++ [deed])) :
    Proper candidate past deeds ∧ deed.Permitted candidate (past ++ deeds) := by
  generalize hlist : deeds ++ [deed] = list at h
  cases h with
  | nil => exact absurd hlist (List.append_ne_nil_of_right_ne_nil _ (List.cons_ne_nil _ _))
  | concat hfirst hlast =>
    obtain ⟨rfl, hsame⟩ := List.append_inj' hlist rfl
    obtain rfl := List.singleton_inj.1 hsame
    exact ⟨hfirst, hlast⟩

theorem process (h : Proper candidate past deeds) : ∀ deed ∈ deeds, deed.process = candidate.process := by
  induction h with
  | nil => nofun
  | concat _ hdeed ih =>
    intro deed hmem
    rcases List.mem_append.1 hmem with hmem | hmem
    · exact ih deed hmem
    · rw [List.mem_singleton.1 hmem]
      exact hdeed.1

end Proper

/-! ### Writing them down -/

/-- A world and what was done to its processes, oldest first. -/
structure Deeds (σ π : Type) where
  world : σ
  done : List (Deed π) := []

namespace Deeds

def beneath (action : Action σ α) : Action (Deeds σ π) α := action.within (·.world) fun world s => { s with world }

def noted (describe : Except Failure α → Deed π) (attempt : Attempt σ α) : Attempt (Deeds σ π) α :=
  ExceptT.mk do
    let result ← beneath attempt.outcome
    .onWorld fun s => ((), { s with done := s.done ++ [describe result] })
    return result

/-- The platform that writes down what may change a process. -/
def platform (inner : Platform σ π) : Platform (Deeds σ π) π where
  processes := ExceptT.mk (beneath inner.processes.outcome)
  openProcess info := ExceptT.mk (beneath (inner.openProcess info).outcome)
  close process := beneath (inner.close process)
  pid := inner.pid
  hasExited process := beneath (inner.hasExited process)
  is64Bit process := ExceptT.mk (beneath (inner.is64Bit process).outcome)
  moduleBase process := ExceptT.mk (beneath (inner.moduleBase process).outcome)
  read process address n := ExceptT.mk (beneath (inner.read process address n).outcome)
  write process address bytes := noted (fun _ => .write process address bytes) (inner.write process address bytes)
  allocate process size := noted (.allocate process size) (inner.allocate process size)
  free process address := noted (fun _ => .free process address) (inner.free process address)

theorem erases (inner : Platform σ π) : (platform inner).Erases (·.world) inner where
  processes _ := rfl
  openProcess _ _ := rfl
  close _ _ := rfl
  pid := rfl
  hasExited _ _ := rfl
  is64Bit _ _ := rfl
  moduleBase _ _ := rfl
  read _ _ _ _ := rfl
  write _ _ _ _ := rfl
  allocate _ _ _ := rfl
  free _ _ _ := rfl

/-- Nothing is done yet. -/
def start (s : Traced σ) : Traced (Deeds σ π) := ⟨⟨s.world, []⟩, s.log⟩

/-! ### Rules -/

section Rules

variable {holds : List (Deed π) → Prop} {pre failed : σ → Prop} {post : α → σ → Prop}

private theorem ensures_beneath {action : Action σ α} (h : Action.Ensures pre action post) :
    Action.Ensures (fun s : Deeds σ π => holds s.done ∧ pre s.world) (beneath action)
      fun a s => holds s.done ∧ post a s.world :=
  fun s hs => ⟨hs.1, h ⟨s.world.world, s.log⟩ hs.2⟩

private theorem ensures_sought {attempt : Attempt σ α} (h : Attempt.Ensures pre attempt post failed) :
    Attempt.Ensures (fun s : Deeds σ π => holds s.done ∧ pre s.world) (ExceptT.mk (beneath attempt.outcome))
      (fun a s => holds s.done ∧ post a s.world) fun s => holds s.done ∧ failed s.world := by
  refine (ensures_beneath h).post_mono fun result s hs => ?_
  cases result <;> exact hs

theorem ensures_noted {describe : Except Failure α → Deed π} {attempt : Attempt σ α}
    {pre failed : List (Deed π) → σ → Prop} {post : α → List (Deed π) → σ → Prop}
    (h : ∀ done, Attempt.Ensures (pre done) attempt (fun a => post a (done ++ [describe (.ok a)])) fun w =>
      ∀ failure, failed (done ++ [describe (.error failure)]) w) :
    Attempt.Ensures (fun s => pre s.done s.world) (noted describe attempt) (fun a s => post a s.done s.world)
      fun s => failed s.done s.world := by
  intro s hs
  have hresult := h s.world.done ⟨s.world.world, s.log⟩ hs
  have hnoted : (noted describe attempt).outcome s =
      let outcome := attempt.outcome ⟨s.world.world, s.log⟩
      (outcome.1, ⟨⟨outcome.2.world, s.world.done ++ [describe outcome.1]⟩, outcome.2.log⟩) := rfl
  rw [hnoted]
  generalize attempt.outcome ⟨s.world.world, s.log⟩ = outcome at hresult ⊢
  obtain ⟨result, after⟩ := outcome
  cases result with
  | ok a => exact hresult
  | error failure => exact hresult failure

/-- Looking at processes does nothing to them. -/
theorem quiet {inner : Platform σ π} {sight : Sight π} {now gone : σ → Prop} (h : inner.Quiet sight now gone) :
    (platform inner).Quiet sight (fun s => holds s.done ∧ now s.world) fun s => holds s.done ∧ gone s.world where
  processes := ensures_sought h.processes
  openProcess info := ensures_sought (h.openProcess info)
  close process := ensures_beneath (h.close process)
  leave process := ensures_beneath (h.leave process)
  hasExited process := by
    refine (ensures_beneath (h.hasExited process)).post_mono fun exited s hs => ?_
    cases exited <;> exact hs
  is64Bit process := (ensures_sought (h.is64Bit process)).post_mono fun _ _ hs => ⟨hs.2.1, hs.1, hs.2.2⟩
  moduleBase process := (ensures_sought (h.moduleBase process)).post_mono fun _ _ hs => ⟨hs.2.1, hs.1, hs.2.2⟩
  read process a n := (ensures_sought (h.read process a n)).post_mono fun _ _ hs => ⟨hs.2.1, hs.1, hs.2.2⟩

private theorem ensures_unchanged {action : Action σ α} :
    Action.Ensures (fun s : Deeds σ π => holds s.done) (beneath action) fun _ s => holds s.done := fun _ hs => hs

private theorem ensures_sought_unchanged {attempt : Attempt σ α} :
    Attempt.Ensures (fun s : Deeds σ π => holds s.done) (ExceptT.mk (beneath attempt.outcome)) (fun _ s => holds s.done)
      fun s => holds s.done := by
  refine (@ensures_unchanged _ _ _ holds attempt.outcome).post_mono fun result s hs => ?_
  cases result <;> exact hs

/-- What is kept without a list is kept with one. -/
theorem confined {inner : Platform σ π} {process : π} {now : σ → Prop} (h : inner.Confined process now) :
    (platform inner).Confined process fun s => now s.world where
  close s hs := h.close ⟨s.world.world, s.log⟩ hs
  hasExited s hs := h.hasExited ⟨s.world.world, s.log⟩ hs
  write address bytes := @ensures_noted _ _ _ (fun _ => .write process address bytes) _ (fun _ => now) (fun _ => now)
    (fun _ _ => now) fun _ => (h.write address bytes).failed_mono fun _ hw _ => hw
  allocate size := @ensures_noted _ _ _ (.allocate process size) _ (fun _ => now) (fun _ => now) (fun _ _ => now)
    fun _ => (h.allocate size).failed_mono fun _ hw _ => hw
  free address := @ensures_noted _ _ _ (fun _ => .free process address) _ (fun _ => now) (fun _ => now) (fun _ _ => now)
    fun _ => (h.free address).failed_mono fun _ hw _ => hw

private theorem custody (inner : Platform σ π) :
    (platform inner).Custody (fun s => holds s.done) fun _ s => holds s.done where
  processes := ensures_sought_unchanged
  openProcess _ := ensures_sought_unchanged
  close _ := ensures_unchanged
  looks _ :=
    ⟨ensures_unchanged, ensures_sought_unchanged, ensures_sought_unchanged, fun _ _ => ensures_sought_unchanged⟩

end Rules

/-! ### Patching -/

/-- All deeds so far were proper, and one of them has given the block at `base`. -/
def WithBlock (candidate : Candidate π) (past : List (Deed π)) (size : Nat) (base : UInt32)
    (done : List (Deed π)) : Prop :=
  Proper candidate past done ∧ .allocate candidate.process size (.ok base) ∈ past ++ done

section Patching

variable (inner : Platform σ π) {candidate : Candidate π} {past : List (Deed π)} {size : Nat} {base : UInt32}

private theorem WithBlock.concat {done : List (Deed π)} {deed : Deed π} (h : WithBlock candidate past size base done)
    (hdeed : deed.Permitted candidate (past ++ done)) : WithBlock candidate past size base (done ++ [deed]) := by
  refine ⟨h.1.concat hdeed, ?_⟩
  rw [← List.append_assoc]
  exact List.mem_append_left _ h.2

private theorem ensures_permitted {describe : Except Failure α → Deed π} {attempt : Attempt σ α}
    (h : ∀ done, WithBlock candidate past size base done →
      ∀ result, (describe result).Permitted candidate (past ++ done)) :
    Attempt.Ensures (fun s => WithBlock candidate past size base s.done) (noted describe attempt)
      (fun _ s => WithBlock candidate past size base s.done) fun s => WithBlock candidate past size base s.done := by
  refine @ensures_noted _ _ _ describe attempt (fun done _ => WithBlock candidate past size base done)
    (fun done _ => WithBlock candidate past size base done) (fun _ done _ => WithBlock candidate past size base done)
    fun done s hs => ?_
  cases (attempt.outcome s).1 with
  | ok a => exact hs.concat (h done hs (.ok a))
  | error failure => exact fun failure => hs.concat (h done hs (.error failure))

private theorem ensures_allocate (candidate : Candidate π) (past : List (Deed π)) (size : Nat) :
    Attempt.Ensures (fun s => Proper candidate past s.done) ((platform inner).allocate candidate.process size)
      (fun base s => WithBlock candidate past size base s.done) fun s => Proper candidate past s.done := by
  refine @ensures_noted _ _ _ (.allocate candidate.process size) _ (fun done _ => Proper candidate past done)
    (fun done _ => Proper candidate past done) (fun base done _ => WithBlock candidate past size base done)
    fun done s hs => ?_
  cases ((inner.allocate candidate.process size).outcome s).1 with
  | error failure => exact fun failure => hs.concat ⟨rfl, trivial⟩
  | ok base =>
    refine ⟨hs.concat ⟨rfl, trivial⟩, ?_⟩
    rw [← List.append_assoc]
    exact List.mem_append_right _ (List.mem_singleton_self _)

private theorem ensures_free : Attempt.Ensures (fun s => WithBlock candidate past size base s.done)
    ((platform inner).free candidate.process base) (fun _ s => WithBlock candidate past size base s.done)
    fun s => WithBlock candidate past size base s.done :=
  ensures_permitted fun _ h _ => ⟨rfl, size, h.2⟩

variable (hsnapshots : candidate.snapshots = candidate.build.snapshots candidate.moduleBase)
include hsnapshots

private theorem ensures_write {snapshot : Snapshot} (hsnapshot : snapshot ∈ candidate.snapshots) {bytes : Bytes}
    (hlength : bytes.length ≤ 6) :
    Attempt.Ensures (fun s => WithBlock candidate past size base s.done)
      ((platform inner).write candidate.process snapshot.code.base bytes)
      (fun _ s => WithBlock candidate past size base s.done) fun s => WithBlock candidate past size base s.done := by
  rw [hsnapshots] at hsnapshot
  obtain ⟨site, -, rfl⟩ := List.mem_map.1 hsnapshot
  exact ensures_permitted fun _ _ _ => ⟨rfl, .inl ⟨site, preamble_base site _ _, hlength⟩⟩

/-- Putting sites back is proper, and so is the release of the block. -/
private theorem ensures_rollback {snapshots : List Snapshot} (hsubset : snapshots ⊆ candidate.snapshots) :
    Action.Ensures (fun s => WithBlock candidate past size base s.done)
      ((platform inner).rollback candidate.process snapshots base)
      fun _ s => WithBlock candidate past size base s.done := by
  refine Platform.ensures_rollback (fun _ (s : Deeds σ π) => WithBlock candidate past size base s.done)
    (fun done s rest hdone => ?_) (fun _ _ _ _ _ _ hw => hw) (fun _ _ _ => ensures_free inner) fun _ _ _ _ hw => hw
  have hs : s ∈ candidate.snapshots := by
    refine hsubset ?_
    rw [← hdone]
    exact List.mem_append_right _ (List.mem_cons_self ..)
  refine ensures_write inner hsnapshots hs (Nat.le_of_eq ?_)
  rw [hsnapshots] at hs
  exact Build.length_snapshots hs

/-- Attaching is proper. The code that fills the block is as long as the block. -/
theorem ensures_attach :
    Attempt.Ensures (fun s => Proper candidate past s.done) ((platform inner).attach candidate)
      (fun session s => ∃ base size, session = Session.start candidate base ∧
        WithBlock candidate past size base s.done) fun s => Proper candidate past s.done := by
  have hbuild : (Head.build candidate.snapshots).code.size = 162 := by
    rw [hsnapshots]
    exact size_build candidate.build candidate.moduleBase
  have hplaced : ∀ base, (Head.placed candidate.snapshots base).code.bytes.length = 162 := by
    intro base
    rw [hsnapshots]
    exact size_placed candidate.build candidate.moduleBase base
  refine (Platform.ensures_attach (fun base (s : Deeds σ π) => WithBlock candidate past 162 base s.done)
    (fun base (s : Deeds σ π) => WithBlock candidate past 162 base s.done)
    (fun base _ (s : Deeds σ π) => WithBlock candidate past 162 base s.done)
    (fun base _ (s : Deeds σ π) => WithBlock candidate past 162 base s.done) ?_ (fun base => ?_) (fun _ _ _ hs => hs)
    (fun _ => (ensures_free inner).ends_mono (fun _ _ hs => hs.1) fun _ hs => hs.1)
    (fun base done pair rest h => ?_) (fun _ _ _ _ _ _ _ hs => hs) (fun base done pair rest h => ?_)
    ensures_unchanged).post_mono fun session s ⟨base, hsession, hs⟩ => ⟨base, 162, hsession, hs⟩
  · rw [hbuild]
    exact ensures_allocate inner candidate past 162
  · exact ensures_permitted fun _ hblock _ => ⟨rfl, .inr ⟨162, hblock.2, Nat.le_of_eq (hplaced base)⟩⟩
  · refine ensures_write inner hsnapshots (Head.mem_of_pairs h) ?_
    rw [length_redirect]
    decide
  · exact (ensures_rollback inner hsnapshots (Head.subset_of_pairs h)).post_mono fun _ _ hs => hs.1

end Patching

end Deeds

/-! ### Restoring -/

/-- The candidate that was patched when the session began. -/
def Session.candidate (session : Session π) : Candidate π :=
  ⟨session.process, session.build, session.moduleBase, session.snapshots⟩

namespace Deeds

variable (inner : Platform σ π) {session : Session π} {past : List (Deed π)}

theorem ensures_restore {size : Nat} (hsnapshots : session.snapshots = session.build.snapshots session.moduleBase)
    (hblock : .allocate session.process size (.ok session.head) ∈ past) :
    Action.Ensures (fun s => Proper session.candidate past s.done) ((platform inner).restore session)
      fun _ s => Proper session.candidate past s.done := by
  have hrollback : Action.Ensures (fun s => Proper session.candidate past s.done)
      ((platform inner).rollback session.process session.snapshots session.head)
      fun _ s => Proper session.candidate past s.done :=
    (@ensures_rollback _ _ inner session.candidate past size session.head hsnapshots _ (List.Subset.refl _)).mono
      (fun _ hs => ⟨hs, List.mem_append_left _ hblock⟩) fun _ _ hs => hs.1
  refine Action.Ensures.bind ((custody inner).looks session.process).hasExited fun exited => ?_
  cases exited with
  | true => exact Action.Ensures.bind Action.Ensures.report fun _ => (custody inner).close session.process
  | false =>
    refine Action.Ensures.bind hrollback fun restored => ?_
    cases restored with
    | true => exact Action.Ensures.bind Action.Ensures.report fun _ => (custody inner).close session.process
    | false => exact Action.Ensures.bind Action.Ensures.report fun _ => (custody inner).close session.process

end Deeds

/-! ### Calls -/

namespace Call

variable (platform : Platform σ π) (call : Call σ π)

/-- The call, with what it does written down. -/
def noted : (Engine π × List Bool) × Traced (Deeds σ π) :=
  (Call.mk call.engine call.request (Deeds.start call.state)).answer (Deeds.platform platform)

/-- What the call does to processes. -/
def deeds : List (Deed π) := (call.noted platform).2.world.done

/-- The process that the call accepts. -/
def found? : Option (Candidate π) :=
  match call.request, call.engine.session with
  | .update, none => (platform.findTarget call.engine.config.processName call.state).1
  | _, _ => none

theorem answer_eq_noted : call.answer platform =
    ((call.noted platform).1, ⟨(call.noted platform).2.world.world, (call.noted platform).2.log⟩) :=
  (Deeds.erases platform).answer call.engine call.request (Deeds.start call.state)

variable {platform call}

/-! #### Calls that do nothing -/

/-- A poll does nothing to any process, even if it ends the session. -/
theorem deeds_of_poll {session : Session π} (hrequest : call.request = .update)
    (hsession : call.engine.session = some session) : call.deeds platform = [] := by
  obtain ⟨engine, request, state⟩ := call
  obtain rfl : request = .update := hrequest
  replace hsession : engine.session = some session := hsession
  have hupdate : Action.Ensures (fun s : Deeds σ π => s.done = []) (engine.update (Deeds.platform platform))
      fun _ s => s.done = [] := by
    unfold Engine.update
    rw [hsession]
    refine Action.Ensures.bind ((@Deeds.custody _ _ (· = []) platform).looks session.process).ensures_poll fun poll =>
      Action.Ensures.of_imp fun _ => ?_
    cases poll.failure with
    | none => exact Action.Ensures.pure fun _ hs => hs
    | some failure =>
      exact Action.Ensures.bind Action.Ensures.report fun _ =>
        Action.Ensures.bind ((@Deeds.custody _ _ (· = []) platform).close session.process) fun _ =>
          Action.Ensures.pure fun _ hs => hs
  exact hupdate (Deeds.start state) rfl

/-- A shutdown does nothing to a process that it finds ended. -/
theorem deeds_of_ended {session : Session π} (hrequest : call.request = .shutdown)
    (hsession : call.engine.session = some session)
    (hended : (platform.hasExited session.process call.state).1 = true) : call.deeds platform = [] := by
  obtain ⟨engine, request, state⟩ := call
  obtain rfl : request = .shutdown := hrequest
  replace hsession : engine.session = some session := hsession
  have hsame : ((Deeds.platform platform).hasExited session.process (Deeds.start state)).1 = true := hended
  simp only [deeds, noted, answer, Engine.shutdown, hsession, Action.bind_apply, Platform.restore, hsame, ↓reduceIte]
  rfl

end Call

end LoadRemover
