import LoadRemover.Diagnostic

/-!
# Actions on the outside world

The processes of the machine, whatever they are, form a world `σ` that actions change. An `Action` always ends with
a result, an `Attempt` may fail instead; what either did to the world before stays done. Both leave diagnostics.
-/

namespace LoadRemover

/-- A world, and the diagnostics of all actions on it so far, oldest first. -/
structure Traced (σ : Type) where
  world : σ
  log : List Diagnostic := []

/-- An action on the world `σ` with a result. -/
abbrev Action (σ : Type) : Type → Type := StateM (Traced σ)

/-- An action on the world `σ` that may fail. -/
abbrev Attempt (σ : Type) : Type → Type := ExceptT Failure (Action σ)

namespace Action

variable {σ τ α β : Type}

def report (diagnostic : Diagnostic) : Action σ Unit :=
  modify fun s => { s with log := s.log ++ [diagnostic] }

def onWorld (f : σ → α × σ) : Action σ α :=
  modifyGet fun s => let (a, world) := f s.world; (a, { s with world })

def within (get : τ → σ) (set : σ → τ → τ) (action : Action σ α) : Action τ α :=
  modifyGet fun s =>
    let (a, inner) := action ⟨get s.world, s.log⟩
    (a, ⟨set inner.world s.world, inner.log⟩)

@[simp] theorem pure_apply (a : α) (s : Traced σ) : (pure a : Action σ α) s = (a, s) := rfl

@[simp] theorem bind_apply (action : Action σ α) (f : α → Action σ β) (s : Traced σ) :
    (action >>= f) s = f (action s).1 (action s).2 := rfl

@[simp] theorem report_apply (diagnostic : Diagnostic) (s : Traced σ) :
    report diagnostic s = ((), { s with log := s.log ++ [diagnostic] }) := rfl

@[simp] theorem onWorld_apply (f : σ → α × σ) (s : Traced σ) :
    onWorld f s = ((f s.world).1, { s with world := (f s.world).2 }) := rfl

end Action

namespace Attempt

variable {σ α β : Type}

def onWorld (f : σ → Except Failure α × σ) : Attempt σ α :=
  ExceptT.mk (Action.onWorld f)

def report (diagnostic : Diagnostic) : Attempt σ Unit :=
  ExceptT.lift (Action.report diagnostic)

def outcome (attempt : Attempt σ α) : Action σ (Except Failure α) := attempt.run

@[simp] theorem outcome_pure (a : α) : (pure a : Attempt σ α).outcome = pure (.ok a) := rfl

@[simp] theorem outcome_throw (failure : Failure) :
    (throw failure : Attempt σ α).outcome = pure (.error failure) := rfl

/-- A failure of the first attempt is the outcome of both, and the second is not carried out. -/
theorem outcome_bind (attempt : Attempt σ α) (f : α → Attempt σ β) :
    (attempt >>= f).outcome = attempt.outcome >>= fun
      | .ok a => (f a).outcome
      | .error failure => pure (.error failure) := by
  simp only [outcome, ExceptT.run_bind]
  refine bind_congr fun result => ?_
  cases result <;> rfl

@[simp] theorem outcome_onWorld (f : σ → Except Failure α × σ) :
    (onWorld f).outcome = Action.onWorld f := rfl

@[simp] theorem outcome_report (diagnostic : Diagnostic) :
    (report diagnostic : Attempt σ Unit).outcome = Action.report diagnostic >>= fun _ => pure (.ok ()) := rfl

end Attempt

end LoadRemover
