import LoadRemover.Display
import LoadRemover.Proofs.Events

/-!
# A timer that follows an engine

The events of an engine are given to a timer, each at an instant that a clock gives. Both leave out what is no
change, and they do not agree on what that is: the engine says `false` whenever a session ends, also when the signal
was off, and the timer then has nothing to do.

* The timer takes in an event if it differs from the timer's state, prints a line for it and is in the state that the
  event says (`LoadTimer.onLoading_same`, `LoadTimer.onLoading_change`).
* So after a run the timer is in the state of the last event, and the printed words alternate
  (`LoadTimer.follow_spec`).
* There is a `false` between any two `true` of a run, so no `true` is lost on the timer and each of them counts as a
  load (`LoadTimer.loads_follow`).
-/

namespace LoadRemover

/-- The line for a change of the signal at the given time of the game. -/
def loadingLine (elapsed : String) (loading : Bool) : String :=
  let word := if loading then Style.bold (Style.yellow "LOADING") else Style.bold (Style.green "RUNNING")
  s!"[{elapsed}] {word}"

/-- Each event with the reading of the clock at which it is heard. -/
def stamped (clock : Nat → Instant) (events : List Bool) : List (Bool × Instant) :=
  events.zipIdx.map fun (event, i) => (event, clock i)

private theorem map_fst_stamped (clock : Nat → Instant) (events : List Bool) :
    (stamped clock events).map (·.1) = events := by
  rw [stamped, List.map_map]
  exact List.zipIdx_map_fst 0 events

namespace LoadTimer

variable {timer : LoadTimer} {loading : Bool} {now : Instant}

/-! ### One event -/

private theorem onLoading_same (h : loading = timer.isLoading) : timer.onLoading loading now = (timer, none) := by
  obtain ⟨started, since, total, loads⟩ := timer
  subst h
  cases since <;> rfl

private theorem onLoading_change (h : loading ≠ timer.isLoading) :
    (timer.onLoading loading now).1.isLoading = loading ∧
    (timer.onLoading loading now).1.loads = timer.loads + loading.toNat ∧
    (timer.onLoading loading now).2 =
      some (loadingLine ((timer.onLoading loading now).1.gameTime now).text loading) := by
  obtain ⟨started, since, total, loads⟩ := timer
  cases since with
  | none =>
    obtain rfl : loading = true := eq_true_of_ne_false h
    exact ⟨rfl, rfl, rfl⟩
  | some since =>
    obtain rfl : loading = false := eq_false_of_ne_true h
    exact ⟨rfl, rfl, rfl⟩

/-- After an event the timer is in the state that the event says. -/
private theorem isLoading_onLoading : (timer.onLoading loading now).1.isLoading = loading := by
  by_cases h : loading = timer.isLoading
  · rw [onLoading_same h, h]
  · exact (onLoading_change h).1

/-- While the timer is not loading, the loading time stands still. -/
private theorem loadingTime_of_not_loading (h : timer.isLoading = false) (now : Instant) :
    timer.loadingTime now = timer.loadingTotal := by
  obtain ⟨started, since, total, loads⟩ := timer
  cases since with
  | none => rfl
  | some since => exact nomatch h

/-! ### All events of a run -/

private theorem follow_append (timer : LoadTimer) (before after : List (Bool × Instant)) :
    timer.follow (before ++ after) =
      (((timer.follow before).1.follow after).1,
        (timer.follow before).2 ++ ((timer.follow before).1.follow after).2) := by
  induction before generalizing timer with
  | nil => rfl
  | cons event rest ih =>
    have hrest := ih (timer.onLoading event.1 event.2).1
    simp only [List.cons_append, follow, hrest, List.append_assoc]

/-- One more event adds a line if it changes the timer's state, and no line otherwise. -/
private theorem follow_concat (timer : LoadTimer) (before : List (Bool × Instant)) (loading : Bool) (now : Instant) :
    (timer.follow (before ++ [(loading, now)])).1.isLoading = loading ∧
    (timer.follow (before ++ [(loading, now)])).2 = (timer.follow before).2 ++
      if loading = (timer.follow before).1.isLoading then []
      else [loadingLine ((timer.follow (before ++ [(loading, now)])).1.gameTime now).text loading] := by
  have hone : ∀ timer : LoadTimer, timer.follow [(loading, now)] =
      ((timer.onLoading loading now).1, (timer.onLoading loading now).2.toList) := fun _ =>
    congrArg (_, ·) (List.append_nil _)
  rw [follow_append, hone]
  refine ⟨isLoading_onLoading, congrArg (_ ++ ·) ?_⟩
  split
  · rename_i h
    rw [onLoading_same h]
    rfl
  · rename_i h
    rw [(onLoading_change h).2.2]
    rfl

/-- The printed words lead from the state before the events to the state after them, which is that of the last one. -/
private theorem follow_spec (timer : LoadTimer) (heard : List (Bool × Instant)) :
    (timer.follow heard).1.isLoading = (heard.map (·.1)).getLast?.getD timer.isLoading ∧
    ∃ words times, times.length = words.length ∧
      Toggles timer.isLoading words (timer.follow heard).1.isLoading ∧
      (timer.follow heard).2 = List.zipWith loadingLine times words := by
  induction heard generalizing timer with
  | nil => exact ⟨rfl, [], [], rfl, rfl, rfl⟩
  | cons event rest ih =>
    obtain ⟨loading, now⟩ := event
    have hfollow : timer.follow ((loading, now) :: rest) =
        (((timer.onLoading loading now).1.follow rest).1,
          (timer.onLoading loading now).2.toList ++ ((timer.onLoading loading now).1.follow rest).2) := rfl
    obtain ⟨hlast, words, times, hlength, htoggles, hlines⟩ := ih (timer.onLoading loading now).1
    rw [isLoading_onLoading] at hlast htoggles
    rw [hfollow, hlast, List.map_cons, List.getLast?_cons, Option.getD_some]
    rw [hlast] at htoggles
    refine ⟨rfl, ?_⟩
    by_cases h : loading = timer.isLoading
    · refine ⟨words, times, hlength, h ▸ htoggles, ?_⟩
      rw [← hlines, onLoading_same h]
      rfl
    · refine ⟨loading :: words, ((timer.onLoading loading now).1.gameTime now).text :: times, congrArg (· + 1) hlength,
        ⟨Bool.eq_not.2 h, htoggles⟩, ?_⟩
      rw [hlines, (onLoading_change h).2.2]
      rfl

/-- If no two `true` follow each other, then each of them begins a load. -/
private theorem loads_follow (timer : LoadTimer) (heard : List (Bool × Instant))
    (h : (timer.isLoading :: heard.map (·.1)).IsChain fun a b => ¬(a = true ∧ b = true)) :
    (timer.follow heard).1.loads = timer.loads + (heard.map (·.1)).count true := by
  induction heard generalizing timer with
  | nil => rfl
  | cons event rest ih =>
    obtain ⟨loading, now⟩ := event
    rw [List.map_cons, List.isChain_cons_cons] at h
    have hrest := ih (timer.onLoading loading now).1 (by rw [isLoading_onLoading]; exact h.2)
    have hloads : (timer.onLoading loading now).1.loads = timer.loads + loading.toNat := by
      by_cases hsame : loading = timer.isLoading
      · -- an event that changes nothing is no `true`
        have hfalse : loading = false := eq_false_of_ne_true fun htrue => h.1 ⟨hsame ▸ htrue, htrue⟩
        rw [onLoading_same hsame, hfalse]
        rfl
      · exact (onLoading_change hsame).2.1
    have hcount : ((loading, now) :: rest).map (·.1) = loading :: rest.map (·.1) := rfl
    have hfollow : (timer.follow ((loading, now) :: rest)).1 = ((timer.onLoading loading now).1.follow rest).1 := rfl
    rw [hfollow, hrest, hloads, hcount, List.count_cons]
    cases loading <;> simp [Nat.add_assoc, Nat.add_comm]

end LoadTimer

namespace Engine

variable {σ π : Type} (platform : Platform σ π)

private theorem calls_append (engine : Engine π) (turns more : List (Request × Traced σ)) :
    engine.calls platform (turns ++ more) =
      engine.calls platform turns ++ (engine.afterAll platform (engine.calls platform turns)).calls platform more := by
  induction turns generalizing engine with
  | nil => rfl
  | cons turn rest ih => exact congrArg (_ :: ·) (ih _)

private theorem afterAll_concat (engine : Engine π) (turns : List (Request × Traced σ)) (turn : Request × Traced σ) :
    engine.afterAll platform (engine.calls platform (turns ++ [turn])) =
      (Call.mk (engine.afterAll platform (engine.calls platform turns)) turn.1 turn.2).after platform := by
  rw [calls_append, afterAll, List.foldl_append]
  rfl

private theorem eventsOf_of_detached {calls : List (Call σ π)} (h : ∀ call ∈ calls, call.engine.isAttached = false) :
    eventsOf platform calls = [] := by
  refine List.flatMap_eq_nil_iff.2 fun call hcall => (call.detached platform ?_).1
  simpa [isAttached] using h call hcall

/-- The timer agrees with the engine whose events it hears, whatever happens to the processes and whatever the clock
shows.

* After the calls it is loading exactly if the engine is, and it has counted every `true` as a load.
* It has printed a line for each event that differs from the state in which the event found it, and for no other one.
  The printed words are `LOADING`, `RUNNING`, `LOADING`, …
* While the engine is detached, the timer is not loading and its loading time does not depend on when one looks. Calls
  that find the engine detached leave the timer as it is.
* The engine is detached after a shutdown, and after an update of an attached engine that finds the process ended or
  cannot read one of the two flags. After any other update of an attached engine it is still attached. -/
theorem timer_agrees (config : EngineConfig) (turns : List (Request × Traced σ)) (clock : Nat → Instant)
    (started : Instant) :
    let calls := calls platform { config } turns
    let engine := Engine.afterAll platform { config } calls
    let heard := stamped clock (eventsOf platform calls)
    let timer := (LoadTimer.follow { started } heard).1
    let lines := (LoadTimer.follow { started } heard).2
    timer.isLoading = engine.isLoading ∧
    timer.loads = (eventsOf platform calls).count true ∧
    (∀ before loading now after, heard = before ++ (loading, now) :: after →
      let (found, printed) := LoadTimer.follow { started } before
      let (next, printed') := LoadTimer.follow { started } (before ++ [(loading, now)])
      next.isLoading = loading ∧
      printed' = printed ++
        if loading = found.isLoading then [] else [loadingLine (next.gameTime now).text loading]) ∧
    (∃ times, lines = List.zipWith loadingLine times (alternating times.length)) ∧
    (engine.isAttached = false →
      timer.isLoading = false ∧ (∀ now now', timer.loadingTime now = timer.loadingTime now')) ∧
    (∀ earlier state, turns = earlier ++ [(.shutdown, state)] → engine.isAttached = false) ∧
    (∀ earlier request state, turns = earlier ++ [(request, state)] →
      ∀ session ∈ (Engine.afterAll platform { config } (Engine.calls platform { config } earlier)).session,
        engine.isAttached = true ↔ request = .update ∧ session.Answers platform state) ∧
    ∀ more, (∀ call ∈ Engine.calls platform engine more, call.engine.isAttached = false) →
      LoadTimer.follow { started }
        (stamped clock (eventsOf platform (Engine.calls platform { config } (turns ++ more)))) = (timer, lines) := by
  intro calls engine heard timer lines
  have hlinked := linked_calls platform { config } turns
  have hheard : heard.map (·.1) = eventsOf platform calls := map_fst_stamped clock _
  obtain ⟨hlast, words, times, hlength, htoggles, hlines⟩ := LoadTimer.follow_spec { started } heard
  have hloading : timer.isLoading = engine.isLoading := by
    rw [show timer.isLoading = _ from hlast, hheard]
    exact hlinked.getLast?_eventsOf
  refine ⟨hloading, ?_, fun before loading now _ _ => LoadTimer.follow_concat _ before loading now, ⟨times, ?_⟩,
    fun hdetached => ?_, fun earlier state hturns => ?_, fun earlier request state hturns session hsession => ?_,
    fun more hmore => ?_⟩
  · have hloads := LoadTimer.loads_follow { started } heard (hheard ▸ hlinked.isChain_eventsOf)
    rw [hheard] at hloads
    exact hloads.trans (Nat.zero_add _)
  · rw [hlength, ← htoggles.eq_alternating]
    exact hlines
  · have hsilent : timer.isLoading = false := hloading.trans (isLoading_of_detached hdetached)
    exact ⟨hsilent, fun now now' => by
      rw [LoadTimer.loadingTime_of_not_loading hsilent, LoadTimer.loadingTime_of_not_loading hsilent]⟩
  · have hlast : engine = _ := hturns ▸ afterAll_concat platform { config } earlier (.shutdown, state)
    rw [isAttached, hlast, Call.detached_of_shutdown platform _ rfl]
    rfl
  · have hlast : engine = _ := hturns ▸ afterAll_concat platform { config } earlier (request, state)
    have hwatching := (linked_calls platform { config } earlier).watching (watching_of_detached rfl)
    rw [hlast]
    exact Call.isAttached_after_iff platform _ hsession (hwatching session hsession)
  · have hevents : eventsOf platform (Engine.calls platform { config } (turns ++ more)) = eventsOf platform calls := by
      rw [calls_append, eventsOf, List.flatMap_append]
      exact (congrArg (_ ++ ·) (eventsOf_of_detached platform hmore)).trans (List.append_nil _)
    rw [hevents]

end Engine

end LoadRemover
