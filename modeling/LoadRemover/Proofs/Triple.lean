import LoadRemover.Action

/-!
# Before and after an action

`Action.Ensures pre action post` says what is true of the world after an action that was started where `pre` is
true. An attempt has a second condition, for the world that a failure leaves behind. The rules follow the way
actions are put together, so a proof goes through an action step by step and names what holds between two steps.
-/

namespace LoadRemover

variable {σ α β : Type}

/-- Started in a world with `pre`, the action ends with a result and a world with `post`. -/
def Action.Ensures (pre : σ → Prop) (action : Action σ α) (post : α → σ → Prop) : Prop :=
  ∀ s : Traced σ, pre s.world → post (action s).1 (action s).2.world

/-- Started in a world with `pre`, the attempt ends with a result and a world with `post`, or it fails in a world
with `failed`. -/
def Attempt.Ensures (pre : σ → Prop) (attempt : Attempt σ α) (post : α → σ → Prop) (failed : σ → Prop) : Prop :=
  Action.Ensures pre attempt.outcome fun
    | .ok a => post a
    | .error _ => failed

namespace Action.Ensures

variable {pre pre' : σ → Prop} {post post' : α → σ → Prop} {final : β → σ → Prop} {action : Action σ α}
  {f : α → Action σ β} {a : α}

theorem mono (h : Ensures pre action post) (hpre : ∀ w, pre' w → pre w) (hpost : ∀ a w, post a w → post' a w) :
    Ensures pre' action post' :=
  fun s hs => hpost _ _ (h s (hpre _ hs))

theorem post_mono (h : Ensures pre action post) (hpost : ∀ a w, post a w → post' a w) : Ensures pre action post' :=
  h.mono (fun _ hw => hw) hpost

theorem pure (h : ∀ w, pre w → post a w) : Ensures pre (Pure.pure a) post := fun _ hs => h _ hs

/-- What holds between two actions is the conclusion about the first and the assumption for the second. -/
theorem bind (h : Ensures pre action post) (hf : ∀ a, Ensures (post a) (f a) final) :
    Ensures pre (action >>= f) final :=
  fun s hs => hf _ _ (h s hs)

theorem trivial : Ensures pre action fun _ _ => True := fun _ _ => True.intro

/-- An action has one result, so all that is ensured of it holds together. -/
theorem and (h : Ensures pre action post) (h' : Ensures pre' action post') :
    Ensures (fun w => pre w ∧ pre' w) action fun a w => post a w ∧ post' a w :=
  fun s hs => ⟨h s hs.1, h' s hs.2⟩

theorem or (h : Ensures pre action post) (h' : Ensures pre' action post') :
    Ensures (fun w => pre w ∨ pre' w) action fun a w => post a w ∨ post' a w :=
  fun s hs => hs.imp (h s) (h' s)

theorem report {diagnostic : Diagnostic} : Ensures pre (Action.report diagnostic) fun _ => pre := fun _ hs => hs

theorem onWorld {f : σ → α × σ} (h : ∀ w, pre w → post (f w).1 (f w).2) : Ensures pre (Action.onWorld f) post :=
  fun _ hs => h _ hs

theorem forIn {γ : Type} {list : List γ} {start : β} {turn : γ → β → Action σ (ForInStep β)}
    (h : ∀ item b, Ensures pre (turn item b) fun _ => pre) :
    Ensures pre (ForIn.forIn list start turn) fun _ => pre := by
  induction list generalizing start with
  | nil => exact Ensures.pure fun _ hw => hw
  | cons item rest ih =>
    rw [List.forIn_cons]
    refine Ensures.bind (h item start) fun step => ?_
    cases step with
    | done b => exact Ensures.pure fun _ hw => hw
    | yield b => exact ih

theorem of_imp {p : Prop} (h : p → Ensures pre action post) : Ensures (fun w => p ∧ pre w) action post :=
  fun s hs => h hs.1 s hs.2

end Action.Ensures

namespace Attempt.Ensures

variable {pre pre' : σ → Prop} {post post' : α → σ → Prop} {final : β → σ → Prop} {failed failed' : σ → Prop}
  {attempt : Attempt σ α} {f : α → Attempt σ β} {a : α}

theorem mono (h : Ensures pre attempt post failed) (hpre : ∀ w, pre' w → pre w) (hpost : ∀ a w, post a w → post' a w)
    (hfailed : ∀ w, failed w → failed' w) : Ensures pre' attempt post' failed' := by
  refine Action.Ensures.mono h hpre fun result w hw => ?_
  cases result with
  | ok a => exact hpost a w hw
  | error failure => exact hfailed w hw

theorem ends_mono (h : Ensures pre attempt post failed) (hpost : ∀ a w, post a w → post' a w)
    (hfailed : ∀ w, failed w → failed' w) : Ensures pre attempt post' failed' :=
  h.mono (fun _ hw => hw) hpost hfailed

theorem post_mono (h : Ensures pre attempt post failed) (hpost : ∀ a w, post a w → post' a w) :
    Ensures pre attempt post' failed :=
  h.ends_mono hpost fun _ hw => hw

theorem failed_mono (h : Ensures pre attempt post failed) (hfailed : ∀ w, failed w → failed' w) :
    Ensures pre attempt post failed' :=
  h.ends_mono (fun _ _ hw => hw) hfailed

theorem pure (h : ∀ w, pre w → post a w) : Ensures pre (Pure.pure a) post failed := fun _ hs => h _ hs

theorem trivial : Ensures pre attempt (fun _ _ => True) fun _ => True := by
  intro s _
  cases (attempt.outcome s).1 <;> exact True.intro

theorem throw {failure : Failure} (h : ∀ w, pre w → failed w) :
    Ensures pre (MonadExcept.throw failure : Attempt σ α) post failed :=
  fun _ hs => h _ hs

theorem bind (h : Ensures pre attempt post failed) (hf : ∀ a, Ensures (post a) (f a) final failed) :
    Ensures pre (attempt >>= f) final failed := by
  unfold Ensures
  rw [Attempt.outcome_bind]
  refine Action.Ensures.bind h fun result => ?_
  cases result with
  | ok a => exact hf a
  | error failure => exact Action.Ensures.pure fun _ hw => hw

/-- What follows a failure is not run. -/
theorem throw_bind {failure : Failure} (h : ∀ w, pre w → failed w) :
    Ensures pre (MonadExcept.throw failure >>= f) final failed := by
  have hnever : Ensures pre (MonadExcept.throw failure : Attempt σ α) (fun _ _ => False) failed := throw h
  exact bind hnever fun _ _ => False.elim

theorem and (h : Ensures pre attempt post failed) (h' : Ensures pre' attempt post' failed') :
    Ensures (fun w => pre w ∧ pre' w) attempt (fun a w => post a w ∧ post' a w) fun w => failed w ∧ failed' w := by
  refine (Action.Ensures.and h h').post_mono fun result w hw => ?_
  cases result <;> exact hw

theorem or (h : Ensures pre attempt post failed) (h' : Ensures pre' attempt post' failed') :
    Ensures (fun w => pre w ∨ pre' w) attempt (fun a w => post a w ∨ post' a w) fun w => failed w ∨ failed' w := by
  refine (Action.Ensures.or h h').post_mono fun result w hw => ?_
  cases result <;> exact hw

theorem lift {action : Action σ α} (h : Action.Ensures pre action post) :
    Ensures pre (liftM action : Attempt σ α) post failed :=
  fun s hs => h s hs

theorem report {diagnostic : Diagnostic} :
    Ensures pre (Attempt.report diagnostic : Attempt σ Unit) (fun _ => pre) failed :=
  fun _ hs => hs

theorem onWorld {f : σ → Except Failure α × σ}
    (h : ∀ w, pre w → match (f w).1 with
      | .ok a => post a (f w).2
      | .error _ => failed (f w).2) :
    Ensures pre (Attempt.onWorld f) post failed := by
  refine Action.Ensures.onWorld fun w hw => ?_
  have := h w hw
  cases hresult : (f w).1 <;> rwa [hresult] at this

theorem of_same (h : ∀ s : Traced σ, (attempt.outcome s).2.world = s.world) :
    Ensures pre attempt (fun _ => pre) pre := by
  intro s hs
  have := h s
  cases (attempt.outcome s).1 <;> rwa [this]

theorem look (f : σ → Except Failure α) (h : ∀ w, pre w → ∀ a, f w = .ok a → post a w)
    (hfailed : ∀ w, pre w → failed w) : Ensures pre (Attempt.onWorld fun w => (f w, w)) post failed := by
  refine onWorld fun w hw => ?_
  cases hresult : f w with
  | ok a => exact h w hw a hresult
  | error failure => exact hfailed w hw

theorem tryCatch {handle : Failure → Attempt σ α} {caught : σ → Prop} (h : Ensures pre attempt post caught)
    (hhandle : ∀ failure, Ensures caught (handle failure) post failed) :
    Ensures pre (MonadExcept.tryCatch attempt handle) post failed := by
  have hrun := ExceptT.run_tryCatch (m := Action σ) attempt handle
  unfold Ensures Attempt.outcome
  rw [hrun]
  refine Action.Ensures.bind h fun result => ?_
  cases result with
  | ok a => exact Action.Ensures.pure fun _ hw => hw
  | error failure => exact hhandle failure

end Attempt.Ensures

end LoadRemover
