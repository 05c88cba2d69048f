import LoadRemover.Session
import LoadRemover.Proofs.Triple

/-!
# When a poll ends its session

A poll asks whether the process has ended, then it reads the loading flag and the modal flag, and a bad answer to any
of these questions ends the session. So a session goes on exactly if its process lives and both flags can be read
(`Platform.failure_poll_eq_none_iff`). That the two flags are what is watched is an invariant: a session begins with
it, and a poll keeps it (`Session.WatchesFlags.poll`).
-/

namespace LoadRemover

variable {σ π : Type}

/-- All addresses can be read, each in the state that reading the one before it has left. -/
def Platform.ReadsAll (platform : Platform σ π) (process : π) (n : Nat) : List UInt32 → Traced σ → Prop
  | [], _ => True
  | address :: rest, s =>
    ((platform.read process address n).outcome s).1.isOk = true ∧
      platform.ReadsAll process n rest ((platform.read process address n).outcome s).2

/-! ### Passes over a list -/

namespace WatchList

variable {κ α : Type} [DecidableEq α]

/-- What is watched: the keys and the addresses of the values. -/
def places (list : WatchList κ α) : List (κ × UInt32) := list.map fun entry => (entry.1, entry.2.address)

theorem updateAll_cons (platform : Platform σ π) (process : π) (layout : Layout α) (key : κ) (watched : Watched α)
    (rest : WatchList κ α) (s : Traced σ) :
    updateAll platform process layout ((key, watched) :: rest) s =
      match (platform.read process watched.address layout.width).outcome s with
      | (.ok bytes, s') =>
        let observed := watched.observe (layout.decode bytes)
        let (sweep, s'') := updateAll platform process layout rest s'
        (⟨(key, observed.1) :: sweep.list, (observed.2.map (key, ·)).toList ++ sweep.changes, sweep.failure⟩, s'')
      | (.error failure, s') => (⟨(key, watched) :: rest, [], some failure⟩, s') := by
  rw [updateAll, Watched.update, Attempt.outcome_bind, Action.bind_apply, Action.bind_apply]
  generalize (platform.read process watched.address layout.width).outcome s = result
  obtain ⟨answer, s'⟩ := result
  cases answer <;> rfl

/-- A pass changes what is known of the values and not where they are. -/
private theorem places_updateAll (platform : Platform σ π) (process : π) (layout : Layout α) (list : WatchList κ α)
    (s : Traced σ) : (list.updateAll platform process layout s).1.list.places = list.places := by
  induction list generalizing s with
  | nil => rfl
  | cons entry rest ih =>
    obtain ⟨key, watched⟩ := entry
    rw [updateAll_cons]
    generalize (platform.read process watched.address layout.width).outcome s = result
    obtain ⟨answer, s'⟩ := result
    cases answer with
    | error failure => rfl
    | ok bytes => exact congrArg ((key, watched.address) :: ·) (ih s')

/-- A pass is complete exactly if each value can be read. -/
private theorem failure_updateAll_eq_none_iff (platform : Platform σ π) (process : π) (layout : Layout α)
    (list : WatchList κ α) (s : Traced σ) :
    (list.updateAll platform process layout s).1.failure = none ↔
      platform.ReadsAll process layout.width (list.places.map (·.2)) s := by
  induction list generalizing s with
  | nil => exact ⟨fun _ => True.intro, fun _ => rfl⟩
  | cons entry rest ih =>
    obtain ⟨key, watched⟩ := entry
    rw [updateAll_cons, places, List.map_cons, List.map_cons, Platform.ReadsAll]
    generalize (platform.read process watched.address layout.width).outcome s = result
    obtain ⟨answer, s'⟩ := result
    cases answer with
    | error failure => exact ⟨nofun, fun h => nomatch h.1⟩
    | ok bytes => exact (ih s').trans ⟨fun h => ⟨rfl, h⟩, And.right⟩

end WatchList

/-! ### Polls -/

namespace Session

variable {session : Session π}

/-- The session watches its two flags. -/
def WatchesFlags (session : Session π) : Prop :=
  session.watched.places = [(.loading, session.flag), (.modal, session.moduleBase + session.build.modal)]

/-- The process of the session lives, and its two flags can be read, first the loading flag and then the modal flag. -/
def Answers (platform : Platform σ π) (session : Session π) (s : Traced σ) : Prop :=
  (platform.hasExited session.process s).1 = false ∧
    platform.ReadsAll session.process 1 [session.flag, session.moduleBase + session.build.modal]
      (platform.hasExited session.process s).2

theorem WatchesFlags.poll (h : session.WatchesFlags) (platform : Platform σ π) (s : Traced σ) :
    (platform.poll session s).1.session.WatchesFlags := by
  simp only [Platform.poll, Action.bind_apply]
  split
  · exact h
  · simp only [Action.bind_apply]
    split
    all_goals exact (WatchList.places_updateAll ..).trans h

end Session

/-- A session goes on exactly if its process answers. -/
theorem Platform.failure_poll_eq_none_iff (platform : Platform σ π) {session : Session π} (h : session.WatchesFlags)
    (s : Traced σ) : (platform.poll session s).1.failure = none ↔ session.Answers platform s := by
  have hsweep := session.watched.failure_updateAll_eq_none_iff platform session.process .byte
    (platform.hasExited session.process s).2
  rw [show session.watched.places = _ from h] at hsweep
  simp only [poll, Action.bind_apply, Session.Answers]
  cases hexited : (platform.hasExited session.process s).1 with
  | true => exact ⟨nofun, fun hanswers => nomatch hanswers.1⟩
  | false =>
    refine Iff.trans ?_ (hsweep.trans ⟨fun hreads => ⟨rfl, hreads⟩, And.right⟩)
    simp only [Bool.false_eq_true, ↓reduceIte, Action.bind_apply]
    split
    · -- the first complete pass fails as little as any other complete one
      rename_i hcomplete
      rw [Bool.and_eq_true, Option.isNone_iff_eq_none] at hcomplete
      exact ⟨fun _ => hcomplete.1, fun _ => rfl⟩
    · exact Iff.rfl

end LoadRemover
