import LoadRemover.Proofs.Events
import LoadRemover.Proofs.Recording

/-!
# Worlds with more in them

A world can carry more than the processes, such as a record of what happened. If a platform on such worlds acts like
another one on the worlds that are left when this is erased, then so does everything that is written over platforms,
up to the calls of an engine (`Platform.Erases.answer`). In particular a call that is recorded is the call that it
would be without a record.
-/

namespace LoadRemover

variable {σ τ π α β : Type} {erase : τ → σ}

/-- The first action does on a world what the second does on what is left of it when the rest is erased. -/
def Action.Erases (erase : τ → σ) (action : Action τ α) (action' : Action σ α) : Prop :=
  ∀ s : Traced τ, action' ⟨erase s.world, s.log⟩ = ((action s).1, ⟨erase (action s).2.world, (action s).2.log⟩)

/-- The same for attempts. -/
def Attempt.Erases (erase : τ → σ) (attempt : Attempt τ α) (attempt' : Attempt σ α) : Prop :=
  Action.Erases erase attempt.outcome attempt'.outcome

namespace Action.Erases

private theorem pure (a : α) : Erases erase (Pure.pure a) (Pure.pure a) := fun _ => rfl

private theorem report (diagnostic : Diagnostic) : Erases erase (Action.report diagnostic) (Action.report diagnostic) :=
  fun _ => rfl

private theorem bind {action : Action τ α} {action' : Action σ α} {f : α → Action τ β} {f' : α → Action σ β}
    (h : Erases erase action action') (hf : ∀ a, Erases erase (f a) (f' a)) :
    Erases erase (action >>= f) (action' >>= f') := by
  intro s
  rw [Action.bind_apply, Action.bind_apply, h s]
  exact hf _ _

private theorem forIn {γ : Type} {list : List γ} {start : β} {turn : γ → β → Action τ (ForInStep β)}
    {turn' : γ → β → Action σ (ForInStep β)} (h : ∀ item b, Erases erase (turn item b) (turn' item b)) :
    Erases erase (ForIn.forIn list start turn) (ForIn.forIn list start turn') := by
  induction list generalizing start with
  | nil => exact pure start
  | cons item rest ih =>
    rw [List.forIn_cons, List.forIn_cons]
    refine bind (h item start) fun step => ?_
    cases step with
    | done b => exact pure b
    | yield b => exact ih

end Action.Erases

namespace Attempt.Erases

variable {attempt : Attempt τ α} {attempt' : Attempt σ α}

private theorem pure (a : α) : Erases erase (Pure.pure a : Attempt τ α) (Pure.pure a) := fun _ => rfl

private theorem throw (failure : Failure) :
    Erases erase (MonadExcept.throw failure : Attempt τ α) (MonadExcept.throw failure) :=
  fun _ => rfl

private theorem report (diagnostic : Diagnostic) :
    Erases erase (Attempt.report diagnostic) (Attempt.report diagnostic) :=
  fun _ => rfl

private theorem lift {action : Action τ α} {action' : Action σ α} (h : Action.Erases erase action action') :
    Erases erase (liftM action : Attempt τ α) (liftM action') := by
  intro s
  have := h s
  show (Except.ok (action' ⟨erase s.world, s.log⟩).1, (action' ⟨erase s.world, s.log⟩).2) = _
  rw [this]
  rfl

private theorem bind {f : α → Attempt τ β} {f' : α → Attempt σ β} (h : Erases erase attempt attempt')
    (hf : ∀ a, Erases erase (f a) (f' a)) : Erases erase (attempt >>= f) (attempt' >>= f') := by
  unfold Erases
  rw [Attempt.outcome_bind, Attempt.outcome_bind]
  refine Action.Erases.bind h fun result => ?_
  cases result with
  | ok a => exact hf a
  | error failure => exact Action.Erases.pure _

private theorem tryCatch {handle : Failure → Attempt τ α} {handle' : Failure → Attempt σ α}
    (h : Erases erase attempt attempt') (hhandle : ∀ failure, Erases erase (handle failure) (handle' failure)) :
    Erases erase (MonadExcept.tryCatch attempt handle) (MonadExcept.tryCatch attempt' handle') := by
  have hrun := ExceptT.run_tryCatch (m := Action τ) attempt handle
  have hrun' := ExceptT.run_tryCatch (m := Action σ) attempt' handle'
  unfold Erases Attempt.outcome
  rw [hrun, hrun']
  refine Action.Erases.bind h fun result => ?_
  cases result with
  | ok a => exact Action.Erases.pure _
  | error failure => exact hhandle failure

end Attempt.Erases

/-- The first platform acts on a world as the second does on what is left of it. -/
structure Platform.Erases (erase : τ → σ) (platform : Platform τ π) (platform' : Platform σ π) : Prop where
  processes : Attempt.Erases erase platform.processes platform'.processes
  openProcess : ∀ info, Attempt.Erases erase (platform.openProcess info) (platform'.openProcess info)
  close : ∀ process, Action.Erases erase (platform.close process) (platform'.close process)
  pid : platform.pid = platform'.pid
  hasExited : ∀ process, Action.Erases erase (platform.hasExited process) (platform'.hasExited process)
  is64Bit : ∀ process, Attempt.Erases erase (platform.is64Bit process) (platform'.is64Bit process)
  moduleBase : ∀ process, Attempt.Erases erase (platform.moduleBase process) (platform'.moduleBase process)
  read : ∀ process address n, Attempt.Erases erase (platform.read process address n) (platform'.read process address n)
  write : ∀ process address bytes,
    Attempt.Erases erase (platform.write process address bytes) (platform'.write process address bytes)
  allocate : ∀ process size, Attempt.Erases erase (platform.allocate process size) (platform'.allocate process size)
  free : ∀ process address, Attempt.Erases erase (platform.free process address) (platform'.free process address)

theorem Recorded.erases (inner : Platform σ π) : (platform inner).Erases (·.world) inner where
  processes _ := rfl
  openProcess _ _ := rfl
  close _ _ := rfl
  pid := rfl
  hasExited _ _ := rfl
  is64Bit _ _ := rfl
  moduleBase _ _ := rfl
  read _ _ _ _ := rfl
  write _ _ _ _ := rfl
  allocate _ _ _ := rfl
  free _ _ _ := rfl

namespace Platform.Erases

variable {platform : Platform τ π} {platform' : Platform σ π} (h : platform.Erases erase platform')
include h

/-! ### Patching -/

private theorem writeCode (process : π) (code : Code) :
    Attempt.Erases erase (platform.writeCode process code) (platform'.writeCode process code) := by
  unfold Platform.writeCode
  by_cases hplaced : code.isPlaced = true
  · simp only [hplaced, ↓reduceIte]
    exact .bind (h.write process _ _) fun _ => .pure _
  · simp only [hplaced]
    exact .bind (.throw _) fun _ => .bind (h.write process _ _) fun _ => .pure _

private theorem install (process : π) (code : Code) :
    Action.Erases erase (platform.install process code) (platform'.install process code) := by
  refine .bind (h.allocate process code.size) fun result => ?_
  cases result with
  | error failure => exact .pure _
  | ok address =>
    refine .bind (h.writeCode process (code.moveTo address)) fun result => ?_
    cases result with
    | ok base => exact .bind (.report _) fun _ => .pure _
    | error failure =>
      refine .bind (h.free process address) fun result => ?_
      cases result with
      | ok _ => exact .pure _
      | error second => exact .bind (.report _) fun _ => .pure _

private theorem writeBack (process : π) (snapshots : List Snapshot) :
    Action.Erases erase (platform.writeBack process snapshots) (platform'.writeBack process snapshots) := by
  induction snapshots with
  | nil => exact .pure _
  | cons snapshot rest ih =>
    refine .bind (h.writeCode process snapshot.code) fun result => ?_
    cases result with
    | ok base => exact ih
    | error failure => exact .bind (.report _) fun _ => .bind ih fun _ => .pure _

private theorem rollback (process : π) (snapshots : List Snapshot) (head : UInt32) :
    Action.Erases erase (platform.rollback process snapshots head) (platform'.rollback process snapshots head) := by
  refine .bind (h.writeBack process snapshots) fun complete => ?_
  cases complete with
  | false => exact .bind (.report _) fun _ => .pure _
  | true =>
    refine .bind (h.free process head) fun result => ?_
    cases result with
    | ok _ => exact .pure _
    | error failure => exact .bind (.report _) fun _ => .pure _

private theorem redirectAll (process : π) (head : Head) (base : UInt32) (done : List Snapshot)
    (pairs : List (SiteLayout × Snapshot)) :
    Attempt.Erases erase (platform.redirectAll process head base done pairs)
      (platform'.redirectAll process head base done pairs) := by
  induction pairs generalizing done with
  | nil => exact .pure _
  | cons pair rest ih =>
    unfold Platform.redirectAll
    refine .bind (.tryCatch (.bind (h.writeCode process _) fun _ => .pure _) fun failure => ?_) fun _ =>
      .bind (.report _) fun _ => ih _
    exact .bind (.lift (h.rollback process _ base)) fun _ => .throw _

theorem attach (candidate : Candidate π) :
    Attempt.Erases erase (platform.attach candidate) (platform'.attach candidate) := by
  have hpatch : Attempt.Erases erase (attach.patch platform candidate) (attach.patch platform' candidate) := by
    refine .bind (.lift (h.install _ _)) fun (code, installed) => ?_
    cases installed with
    | error failure => exact fun _ => rfl
    | ok base =>
      refine .bind (fun _ => rfl) fun base => ?_
      exact .bind (h.redirectAll _ _ base [] _) fun _ => .pure _
  refine Action.Erases.bind hpatch fun result => ?_
  cases result with
  | ok session => exact .bind (.pure _) fun _ => .pure _
  | error failure => exact .bind (h.close _) fun _ => .pure _

/-! ### Finding -/

private theorem detectBuild (process : π) (moduleBase : UInt32) :
    Attempt.Erases erase (platform.detectBuild process moduleBase) (platform'.detectBuild process moduleBase) := by
  have hword : Attempt.Erases erase (platform.readWord process (moduleBase + Build.signatureOffset))
      (platform'.readWord process (moduleBase + Build.signatureOffset)) := .bind (h.read process _ 4) fun _ => .pure _
  refine .bind hword fun signature => ?_
  cases Build.ofSignature? signature with
  | none => exact .bind (.report _) fun _ => .pure _
  | some build => exact .bind (.report _) fun _ => .pure _

private theorem holdsCode (process : π) (code : Code) :
    Attempt.Erases erase (platform.holdsCode process code) (platform'.holdsCode process code) := by
  unfold Platform.holdsCode
  by_cases hplaced : code.isPlaced = true
  · simp only [hplaced, ↓reduceIte]
    exact .bind (h.read process _ _) fun _ => .pure _
  · simp only [hplaced]
    exact .bind (.throw _) fun _ => .bind (h.read process _ _) fun _ => .pure _

private theorem snapshots (process : π) (build : Build) (moduleBase : UInt32) (sites : List Site) :
    Attempt.Erases erase (platform.snapshots process build moduleBase sites)
      (platform'.snapshots process build moduleBase sites) := by
  induction sites with
  | nil => exact .pure _
  | cons site rest ih =>
    unfold Platform.snapshots
    rw [h.pid]
    refine .bind (h.holdsCode process _) fun same => ?_
    cases same with
    | false => exact .bind (.report _) fun _ => .pure _
    | true => exact .bind ih fun _ => .pure _

theorem probe (process : π) : Attempt.Erases erase (platform.probe process) (platform'.probe process) := by
  have hexamine : Attempt.Erases erase (probe.examine platform process) (probe.examine platform' process) := by
    unfold probe.examine
    rw [h.pid]
    refine .bind (.lift (h.hasExited process)) fun exited => ?_
    cases exited with
    | true => exact .bind (.report _) fun _ => .pure _
    | false =>
    refine .bind (h.is64Bit process) fun is64Bit => ?_
    cases is64Bit with
    | true => exact .bind (.report _) fun _ => .pure _
    | false =>
    refine .bind (h.moduleBase process) fun moduleBase => ?_
    refine .bind (h.detectBuild process moduleBase) fun found => ?_
    cases found with
    | none => exact .bind (.report _) fun _ => .pure _
    | some build =>
    refine .bind (h.snapshots process build moduleBase Site.all) fun found => ?_
    cases found with
    | none => exact .pure _
    | some snapshots => exact .pure _
  refine Action.Erases.bind hexamine fun result => ?_
  match result with
  | .ok (some candidate) => exact .bind (.pure _) fun _ => .pure _
  | .ok none => exact .bind (h.close process) fun _ => .pure _
  | .error failure => exact .bind (h.close process) fun _ => .pure _

private theorem firstCandidate (infos : List ProcessInfo) :
    Action.Erases erase (platform.firstCandidate infos) (platform'.firstCandidate infos) := by
  induction infos with
  | nil => exact .pure _
  | cons info rest ih =>
    have hopen : Action.Erases erase (platform.openAndProbe info) (platform'.openAndProbe info) := by
      refine .bind (Attempt.Erases.bind (h.openProcess info) h.probe) fun result => ?_
      cases result with
      | ok found => exact .pure _
      | error failure => exact .bind (.report _) fun _ => .pure _
    refine .bind hopen fun found => ?_
    cases found with
    | none => exact ih
    | some candidate => exact .pure _

theorem findTarget (name : String) : Action.Erases erase (platform.findTarget name) (platform'.findTarget name) := by
  refine .bind h.processes fun result => ?_
  cases result with
  | ok infos => exact h.firstCandidate _
  | error failure => exact .bind (.report _) fun _ => .pure _

/-! ### Sessions -/

theorem updateAll {κ : Type} [DecidableEq α] (process : π) (layout : Layout α) (list : WatchList κ α) :
    Action.Erases erase (list.updateAll platform process layout) (list.updateAll platform' process layout) := by
  induction list with
  | nil => exact .pure _
  | cons entry rest ih =>
    obtain ⟨key, watched⟩ := entry
    have hupdate : Attempt.Erases erase (watched.update platform process layout)
        (watched.update platform' process layout) :=
      .bind (h.read process _ _) fun _ => .pure _
    refine .bind hupdate fun result => ?_
    cases result with
    | error failure => exact .pure _
    | ok observed => exact .bind ih fun _ => .pure _

private theorem poll (session : Session π) : Action.Erases erase (platform.poll session) (platform'.poll session) := by
  refine .bind (h.hasExited session.process) fun exited => ?_
  cases exited with
  | true => exact .pure _
  | false =>
    refine .bind (h.updateAll session.process .byte session.watched) fun sweep => ?_
    refine .bind (.forIn fun _ _ => .bind (.report _) fun _ => .pure _) fun _ => ?_
    simp only
    split
    · exact .pure _
    · exact .pure _

private theorem restore (session : Session π) :
    Action.Erases erase (platform.restore session) (platform'.restore session) := by
  unfold Platform.restore
  rw [h.pid]
  refine .bind (h.hasExited session.process) fun exited => ?_
  cases exited with
  | true => exact .bind (.report _) fun _ => h.close _
  | false =>
    refine .bind (h.rollback session.process _ _) fun restored => ?_
    cases restored with
    | true => exact .bind (.report _) fun _ => h.close _
    | false => exact .bind (.report _) fun _ => h.close _

/-! ### Engines -/

private theorem tryAttach (engine : Engine π) :
    Action.Erases erase (engine.tryAttach platform) (engine.tryAttach platform') := by
  unfold Engine.tryAttach
  rw [h.pid]
  refine .bind (h.findTarget _) fun found => ?_
  cases found with
  | none => exact .pure _
  | some candidate =>
    refine .bind (h.attach candidate) fun result => ?_
    cases result with
    | ok session => exact .bind (.report _) fun _ => .pure _
    | error failure => exact .bind (.report _) fun _ => .pure _

private theorem update (engine : Engine π) :
    Action.Erases erase (engine.update platform) (engine.update platform') := by
  unfold Engine.update
  cases engine.session with
  | none => exact .bind (h.tryAttach engine) fun _ => .pure _
  | some session =>
    refine .bind (h.poll session) fun poll => ?_
    cases poll.failure with
    | none => exact .pure _
    | some failure => exact .bind (.report _) fun _ => .bind (h.close _) fun _ => .pure _

theorem shutdown (engine : Engine π) : Action.Erases erase (engine.shutdown platform) (engine.shutdown platform') := by
  unfold Engine.shutdown
  cases engine.session with
  | none => exact .pure _
  | some session => exact .bind (h.restore session) fun _ => .pure _

/-- A call does with less in the world what it does with more. -/
theorem answer (engine : Engine π) (request : Request) (s : Traced τ) :
    (Call.mk engine request ⟨erase s.world, s.log⟩).answer platform' =
      (((Call.mk engine request s).answer platform).1,
        ⟨erase ((Call.mk engine request s).answer platform).2.world,
          ((Call.mk engine request s).answer platform).2.log⟩) := by
  cases request with
  | update => exact h.update engine s
  | shutdown => exact h.shutdown engine s

end Platform.Erases

end LoadRemover
