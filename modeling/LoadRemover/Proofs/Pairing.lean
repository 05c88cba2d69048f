import LoadRemover.Locate
import LoadRemover.Proofs.Triple

/-!
# Two actions side by side

`Action.Paired related action action' post` compares two actions, which may run over different worlds: started in worlds
that are `related`, they end in such worlds, and `post` is true of their results. The rules follow the way actions are
put together, so one proof goes through both actions step by step.

If all that is asked about two processes is answered in the same way, a probe of the one gives what a probe of the other
gives (`Platform.Paired.probe`).
-/

namespace LoadRemover

variable {σ τ π ρ α β γ δ : Type} {related : σ → τ → Prop}

def Action.Paired (related : σ → τ → Prop) (action : Action σ α) (action' : Action τ β) (post : α → β → Prop) : Prop :=
  ∀ s s', related s.world s'.world →
    post (action s).1 (action' s').1 ∧ related (action s).2.world (action' s').2.world

/-- Both results are those of a success with `post`, or the failures are the same. -/
def Failure.Matching (post : α → β → Prop) : Except Failure α → Except Failure β → Prop
  | .ok a, .ok b => post a b
  | .error failure, .error failure' => failure = failure'
  | _, _ => False

/-- The same for attempts. If one fails, the other fails in the same way. -/
def Attempt.Paired (related : σ → τ → Prop) (attempt : Attempt σ α) (attempt' : Attempt τ β) (post : α → β → Prop) :
    Prop :=
  Action.Paired related attempt.outcome attempt'.outcome (Failure.Matching post)

namespace Action.Paired

variable {action : Action σ α} {action' : Action τ β} {post : α → β → Prop} {final : γ → δ → Prop}

theorem pure {a : α} {b : β} (h : post a b) : Paired related (Pure.pure a) (Pure.pure b) post :=
  fun _ _ hs => ⟨h, hs⟩

theorem report (diagnostic diagnostic' : Diagnostic) :
    Paired related (Action.report diagnostic) (Action.report diagnostic') Eq :=
  fun _ _ hs => ⟨rfl, hs⟩

theorem bind {f : α → Action σ γ} {f' : β → Action τ δ} (h : Paired related action action' post)
    (hf : ∀ a b, post a b → Paired related (f a) (f' b) final) :
    Paired related (action >>= f) (action' >>= f') final := by
  intro s s' hs
  obtain ⟨hpost, hrelated⟩ := h s s' hs
  exact hf _ _ hpost _ _ hrelated

/-- Where the first results are the same, so is what the second actions start from. -/
theorem bind_same {action : Action σ α} {action' : Action τ α} {f : α → Action σ γ} {f' : α → Action τ δ}
    (h : Paired related action action' Eq) (hf : ∀ a, Paired related (f a) (f' a) final) :
    Paired related (action >>= f) (action' >>= f') final :=
  bind h fun a _ hsame => hsame ▸ hf a

end Action.Paired

namespace Attempt.Paired

variable {attempt : Attempt σ α} {attempt' : Attempt τ β} {post : α → β → Prop} {final : γ → δ → Prop}

private theorem pure {a : α} {b : β} (h : post a b) : Paired related (Pure.pure a) (Pure.pure b) post :=
  fun _ _ hs => ⟨h, hs⟩

private theorem report (diagnostic diagnostic' : Diagnostic) :
    Paired related (Attempt.report diagnostic) (Attempt.report diagnostic') Eq :=
  fun _ _ hs => ⟨rfl, hs⟩

private theorem lift {action : Action σ α} {action' : Action τ β} (h : Action.Paired related action action' post) :
    Paired related (liftM action) (liftM action') post :=
  h

theorem bind {f : α → Attempt σ γ} {f' : β → Attempt τ δ} (h : Paired related attempt attempt' post)
    (hf : ∀ a b, post a b → Paired related (f a) (f' b) final) :
    Paired related (attempt >>= f) (attempt' >>= f') final := by
  unfold Paired
  rw [Attempt.outcome_bind, Attempt.outcome_bind]
  refine Action.Paired.bind h fun result result' hresults => ?_
  match result, result' with
  | .ok a, .ok b => exact hf a b hresults
  | .error failure, .error failure' => exact Action.Paired.pure hresults

private theorem bind_same {attempt : Attempt σ α} {attempt' : Attempt τ α} {f : α → Attempt σ γ} {f' : α → Attempt τ δ}
    (h : Paired related attempt attempt' Eq) (hf : ∀ a, Paired related (f a) (f' a) final) :
    Paired related (attempt >>= f) (attempt' >>= f') final :=
  bind h fun a _ hsame => hsame ▸ hf a

/-- What follows a failure is not run. -/
private theorem throw_bind (failure : Failure) (f : α → Attempt σ γ) (f' : β → Attempt τ δ) :
    Paired related (MonadExcept.throw failure >>= f) (MonadExcept.throw failure >>= f') final := by
  unfold Paired
  rw [Attempt.outcome_bind, Attempt.outcome_bind]
  exact fun _ _ hs => ⟨rfl, hs⟩

end Attempt.Paired

/-- All that is asked about the two processes is answered in the same way. -/
structure Platform.Paired (related : σ → τ → Prop) (platform : Platform σ π) (process : π) (platform' : Platform τ ρ)
    (process' : ρ) : Prop where
  hasExited : Action.Paired related (platform.hasExited process) (platform'.hasExited process') Eq
  is64Bit : Attempt.Paired related (platform.is64Bit process) (platform'.is64Bit process') Eq
  moduleBase : Attempt.Paired related (platform.moduleBase process) (platform'.moduleBase process') Eq
  read : ∀ address n, Attempt.Paired related (platform.read process address n) (platform'.read process' address n) Eq
  close : Action.Paired related (platform.close process) (platform'.close process') Eq

/-- The candidate that is found in another process with the same answers. -/
def Candidate.onto (candidate : Candidate π) (process : ρ) : Candidate ρ :=
  ⟨process, candidate.build, candidate.moduleBase, candidate.snapshots⟩

namespace Platform.Paired

variable {platform : Platform σ π} {process : π} {platform' : Platform τ ρ} {process' : ρ}
  (h : Platform.Paired related platform process platform' process')
include h

private theorem detectBuild (moduleBase : UInt32) :
    Attempt.Paired related (platform.detectBuild process moduleBase)
      (platform'.detectBuild process' moduleBase) Eq := by
  have hword : Attempt.Paired related (platform.readWord process (moduleBase + Build.signatureOffset))
      (platform'.readWord process' (moduleBase + Build.signatureOffset)) Eq :=
    .bind_same (h.read _ 4) fun _ => .pure rfl
  refine .bind_same hword fun signature => ?_
  cases Build.ofSignature? signature with
  | none => exact .bind_same (.report _ _) fun _ => .pure rfl
  | some build => exact .bind_same (.report _ _) fun _ => .pure rfl

private theorem holdsCode (code : Code) :
    Attempt.Paired related (platform.holdsCode process code) (platform'.holdsCode process' code) Eq := by
  unfold Platform.holdsCode
  cases code.isPlaced with
  | true => exact .bind_same (h.read _ _) fun _ => .pure rfl
  | false => exact .throw_bind _ _ _

private theorem snapshots (build : Build) (moduleBase : UInt32) (sites : List Site) :
    Attempt.Paired related (platform.snapshots process build moduleBase sites)
      (platform'.snapshots process' build moduleBase sites) Eq := by
  induction sites with
  | nil => exact .pure rfl
  | cons site rest ih =>
    unfold Platform.snapshots
    refine .bind_same (h.holdsCode _) fun same => ?_
    cases same with
    | false => exact .bind_same (.report _ _) fun _ => .pure rfl
    | true => exact .bind_same ih fun _ => .pure rfl

private theorem examine : Attempt.Paired related (probe.examine platform process) (probe.examine platform' process')
    fun found found' => found' = found.map (·.onto process') := by
  unfold probe.examine
  refine .bind_same (.lift h.hasExited) fun exited => ?_
  cases exited with
  | true => exact .bind_same (.report _ _) fun _ => .pure rfl
  | false =>
  refine .bind_same h.is64Bit fun is64Bit => ?_
  cases is64Bit with
  | true => exact .bind_same (.report _ _) fun _ => .pure rfl
  | false =>
  refine .bind_same h.moduleBase fun moduleBase => ?_
  refine .bind_same (h.detectBuild moduleBase) fun found => ?_
  cases found with
  | none => exact .bind_same (.report _ _) fun _ => .pure rfl
  | some build =>
  refine .bind_same (h.snapshots build moduleBase Site.all) fun found => ?_
  cases found with
  | none => exact .pure rfl
  | some snapshots => exact .pure rfl

/-- Processes with the same answers give the same candidate. -/
theorem probe : Attempt.Paired related (platform.probe process) (platform'.probe process')
    fun found found' => found' = found.map (·.onto process') := by
  refine Action.Paired.bind h.examine fun result result' hresults => ?_
  match result, result' with
  | .ok none, .ok _ =>
    obtain rfl := hresults
    exact Action.Paired.bind_same h.close fun _ => Action.Paired.pure rfl
  | .ok (some candidate), .ok _ =>
    obtain rfl := hresults
    exact fun _ _ hs => ⟨rfl, hs⟩
  | .error failure, .error failure' =>
    exact Action.Paired.bind_same h.close fun _ => Action.Paired.pure hresults

end Platform.Paired

end LoadRemover
