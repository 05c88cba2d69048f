import Mathlib.Data.List.Chain
import LoadRemover.Engine
import LoadRemover.Proofs.Watching

/-!
# The events of an engine

An engine is called again and again, and nothing is assumed about the world in between: every call may find it in
any state. The listener hears the events of all calls, in order.

* Within a session the events alternate and begin with `true`; the call that ends the session adds one `false` to
  the changes that its own poll has reported.
* So the last event always is the present signal, and there is a `false` between any two `true`.
* A session goes on through the updates that its process answers. Anything else ends it: the end of the process, a
  flag that cannot be read, a shutdown (`Call.isAttached_after_iff`).

The invariant is `Toggles`: the events of a poll lead from the signal before it to the signal after it.
-/

namespace LoadRemover

/-! ### Alternating values -/

/-- The values lead from `a` to `b`, and each differs from the one before it. -/
def Toggles : Bool → List Bool → Bool → Prop
  | a, [], b => a = b
  | a, c :: rest, b => c = !a ∧ Toggles c rest b

/-- The first `n` of the values `true`, `false`, `true`, … -/
def alternating (n : Nat) : List Bool := (List.range n).map fun i => i % 2 == 0

namespace Toggles

private theorem append {a b c : Bool} {xs ys : List Bool} (hx : Toggles a xs b) (hy : Toggles b ys c) :
    Toggles a (xs ++ ys) c := by
  induction xs generalizing a with
  | nil =>
    obtain rfl : a = b := hx
    exact hy
  | cons x xs ih => exact ⟨hx.1, ih hx.2⟩

private theorem getLast?_getD {a b : Bool} {xs : List Bool} (h : Toggles a xs b) : xs.getLast?.getD a = b := by
  induction xs generalizing a with
  | nil => exact h
  | cons x xs ih =>
    have := ih h.2
    rw [List.getLast?_cons]
    exact this

private theorem eq_map_range {a b : Bool} {xs : List Bool} (h : Toggles a xs b) :
    xs = (List.range xs.length).map fun i => (i % 2 == 0) != a := by
  induction xs generalizing a with
  | nil => rfl
  | cons x xs ih =>
    obtain ⟨rfl, htail⟩ := h
    rw [List.length_cons, List.range_succ_eq_map, List.map_cons, List.map_map, ih htail]
    congr 1
    · cases a <;> rfl
    · simp only [List.length_map, List.length_range]
      refine List.map_congr_left fun i _ => ?_
      have hparity : ((i + 1) % 2 == 0) = !(i % 2 == 0) := by
        rcases Nat.mod_two_eq_zero_or_one i with h | h <;> simp [Nat.add_mod, h]
      simp only [Function.comp_apply, Nat.succ_eq_add_one, hparity]
      cases i % 2 == 0 <;> cases a <;> rfl

theorem eq_alternating {b : Bool} {xs : List Bool} (h : Toggles false xs b) : xs = alternating xs.length := by
  have := h.eq_map_range
  simpa [alternating] using this

private theorem isChain {a b : Bool} {xs : List Bool} (h : Toggles a xs b) :
    (a :: xs).IsChain fun x y => ¬(x = true ∧ y = true) := by
  induction xs generalizing a with
  | nil => exact List.isChain_singleton a
  | cons x xs ih =>
    refine List.isChain_cons_cons.2 ⟨?_, ih h.2⟩
    rw [h.1]
    cases a <;> simp

end Toggles

/-! ### The signal -/

namespace LoadSignal

private theorem toggles_refresh (signal : LoadSignal) :
    Toggles signal.current signal.refresh.2.toList signal.refresh.1.current := by
  simp only [refresh]
  split
  · rfl
  · rename_i h
    refine ⟨?_, rfl⟩
    cases hc : signal.current <;> cases hl : LoadRemover.isLoading signal.loading signal.modal <;> simp_all

private theorem toggles_record (signal : LoadSignal) (input : Input) (value : UInt8) :
    Toggles signal.current (signal.record input value).2.toList (signal.record input value).1.current := by
  cases input with
  | loading => exact toggles_refresh { signal with loading := value }
  | modal => exact toggles_refresh { signal with modal := value }

private theorem toggles_recordAll (signal : LoadSignal) (values : List (Input × UInt8)) :
    Toggles signal.current (signal.recordAll values).2 (signal.recordAll values).1.current := by
  induction values generalizing signal with
  | nil => rfl
  | cons value rest ih =>
    obtain ⟨input, value⟩ := value
    exact (signal.toggles_record input value).append (ih (signal.record input value).1)

end LoadSignal

namespace Platform

variable {σ π : Type}

/-- The events of a poll lead from the signal before it to the signal after it. -/
private theorem toggles_poll (platform : Platform σ π) (session : Session π) (s : Traced σ) :
    Toggles session.signal.current (platform.poll session s).1.events
      (platform.poll session s).1.session.signal.current := by
  simp only [poll, Action.bind_apply]
  split
  · rfl
  · simp only [Action.bind_apply]
    split
    · exact (session.signal.toggles_recordAll _).append (LoadSignal.toggles_recordAll _ _)
    · exact session.signal.toggles_recordAll _

/-- A session begins with the signal off, and it watches its two flags. -/
private theorem ensures_attach_fresh (platform : Platform σ π) (candidate : Candidate π) :
    Attempt.Ensures (fun _ => True) (platform.attach candidate)
      (fun session _ => session.signal.current = false ∧ session.WatchesFlags) fun _ => True := by
  have hpatch : Attempt.Ensures (fun _ => True) (attach.patch platform candidate)
      (fun session _ => session.signal.current = false ∧ session.WatchesFlags) fun _ => True := by
    refine Attempt.Ensures.bind (Attempt.Ensures.lift Action.Ensures.trivial) fun (code, installed) => ?_
    refine Attempt.Ensures.bind Attempt.Ensures.trivial fun base => ?_
    refine Attempt.Ensures.bind Attempt.Ensures.trivial fun _ => ?_
    exact Attempt.Ensures.pure fun _ _ => ⟨rfl, rfl⟩
  refine Action.Ensures.bind hpatch fun result => ?_
  cases result with
  | ok session =>
    exact Action.Ensures.bind (Action.Ensures.pure fun _ hw => hw) fun _ => Action.Ensures.pure fun _ hw => hw
  | error failure => exact Action.Ensures.bind Action.Ensures.trivial fun _ => Action.Ensures.pure fun _ _ => True.intro

end Platform

section Attaching

variable {σ π : Type} {platform : Platform σ π} {engine : Engine π} {pre : σ → Prop} {post : Engine π → σ → Prop}

theorem Engine.tryAttach_of_none {s : Traced σ} (hfound : (platform.findTarget engine.config.processName s).1 = none) :
    engine.tryAttach platform s = (engine, (platform.findTarget engine.config.processName s).2) := by
  unfold tryAttach
  rw [Action.bind_apply, hfound]
  rfl

theorem Engine.tryAttach_of_some {s : Traced σ} {candidate : Candidate π}
    (hfound : (platform.findTarget engine.config.processName s).1 = some candidate)
    (hattach : Attempt.Ensures pre (platform.attach candidate)
      (fun session => post { engine with session := some session }) (post engine))
    (hpre : pre (platform.findTarget engine.config.processName s).2.world) :
    post (engine.tryAttach platform s).1 (engine.tryAttach platform s).2.world := by
  unfold tryAttach
  rw [Action.bind_apply, hfound]
  refine Action.Ensures.bind hattach (fun result => ?_) _ hpre
  cases result with
  | ok session => exact Action.Ensures.bind Action.Ensures.report fun _ => Action.Ensures.pure fun _ hw => hw
  | error failure => exact Action.Ensures.bind Action.Ensures.report fun _ => Action.Ensures.pure fun _ hw => hw

/-- An engine attaches to what it has found. Otherwise it stays as it is. -/
theorem Engine.ensures_tryAttach {found : Candidate π → σ → Prop}
    (hfind : Action.Ensures pre (platform.findTarget engine.config.processName) fun candidate? w =>
      (candidate? = none → post engine w) ∧ ∀ candidate ∈ candidate?, found candidate w)
    (hattach : ∀ candidate, Attempt.Ensures (found candidate) (platform.attach candidate)
      (fun session => post { engine with session := some session }) (post engine)) :
    Action.Ensures pre (engine.tryAttach platform) post := by
  intro s hs
  obtain ⟨hnone, hsome⟩ := hfind s hs
  cases hfound : (platform.findTarget engine.config.processName s).1 with
  | none =>
    rw [Engine.tryAttach_of_none hfound]
    exact hnone hfound
  | some candidate => exact Engine.tryAttach_of_some hfound (hattach candidate) (hsome candidate hfound)

end Attaching

/-- If the engine is in a session, then this watches its two flags. -/
def Engine.Watching {π : Type} (engine : Engine π) : Prop := ∀ session ∈ engine.session, session.WatchesFlags

theorem Engine.watching_of_detached {π : Type} {engine : Engine π} (h : engine.session = none) : engine.Watching :=
  fun session hsession => absurd (h ▸ hsession) (Option.not_mem_none session)

private theorem Engine.ensures_tryAttach_fresh {σ π : Type} (platform : Platform σ π) {engine : Engine π}
    (h : engine.session = none) :
    Action.Ensures (fun _ => True) (engine.tryAttach platform)
      fun engine' _ => engine'.isLoading = false ∧ engine'.Watching := by
  have hstays : engine.isLoading = false ∧ engine.Watching :=
    ⟨by simp only [isLoading, h], watching_of_detached h⟩
  have hfind : Action.Ensures (fun _ => True) (platform.findTarget engine.config.processName) fun candidate? _ =>
      (candidate? = none → engine.isLoading = false ∧ engine.Watching) ∧ ∀ candidate ∈ candidate?, True :=
    Action.Ensures.trivial.post_mono fun _ _ _ => ⟨fun _ => hstays, fun _ _ => trivial⟩
  refine Engine.ensures_tryAttach hfind fun candidate =>
    (platform.ensures_attach_fresh candidate).ends_mono ?_ fun _ _ => hstays
  rintro session _ ⟨hoff, hwatches⟩
  refine ⟨hoff, ?_⟩
  rintro _ ⟨⟩
  exact hwatches

/-! ### Calls of an engine -/

inductive Request where
  | update
  /-- To detach, which is also what happens when the engine's life ends. -/
  | shutdown
deriving DecidableEq

/-- A request to an engine, and the state in which it finds the world. -/
structure Call (σ π : Type) where
  engine : Engine π
  request : Request
  state : Traced σ

namespace Call

variable {σ π : Type} (platform : Platform σ π) (call : Call σ π)

def answer : (Engine π × List Bool) × Traced σ :=
  match call.request with
  | .update => call.engine.update platform call.state
  | .shutdown => call.engine.shutdown platform call.state

def after : Engine π := (call.answer platform).1.1

def events : List Bool := (call.answer platform).1.2

/-- The changes of the signal that the call itself has seen: those of its poll. -/
def changes : List Bool :=
  match call.request, call.engine.session with
  | .update, some session => (platform.poll session call.state).1.events
  | _, _ => []

/-- A shutdown leaves the engine detached. -/
theorem detached_of_shutdown (h : call.request = .shutdown) : (call.after platform).session = none := by
  obtain ⟨engine, request, state⟩ := call
  obtain rfl : request = .shutdown := h
  cases hsession : engine.session with
  | none =>
    simp only [after, answer, Engine.shutdown, hsession, Action.pure_apply]
  | some session =>
    simp only [after, answer, Engine.shutdown, hsession, Action.bind_apply, Action.pure_apply]

/-- A call of a detached engine is silent, and a session that it begins has the signal off. -/
theorem detached (h : call.engine.session = none) :
    call.events platform = [] ∧ (call.after platform).isLoading = false := by
  obtain ⟨engine, request, state⟩ := call
  replace h : engine.session = none := h
  cases request with
  | shutdown =>
    have hloading : engine.isLoading = false := by simp only [Engine.isLoading, h]
    simp only [events, after, answer, Engine.shutdown, h, Action.pure_apply, true_and]
    exact hloading
  | update =>
    have hfresh := Engine.ensures_tryAttach_fresh platform h state True.intro
    simp only [events, after, answer, Engine.update, h, Action.bind_apply, Action.pure_apply, true_and]
    exact hfresh.1

/-- Sessions watch their two flags, from the call that begins one on. -/
private theorem watching_after (h : call.engine.Watching) : (call.after platform).Watching := by
  obtain ⟨engine, request, state⟩ := call
  replace h : engine.Watching := h
  cases request with
  | shutdown => exact Engine.watching_of_detached (detached_of_shutdown platform _ rfl)
  | update =>
    cases hsession : engine.session with
    | none =>
      have hfresh := Engine.ensures_tryAttach_fresh platform hsession state True.intro
      simp only [after, answer, Engine.update, hsession, Action.bind_apply, Action.pure_apply]
      exact hfresh.2
    | some session =>
      have hwatches := (h session hsession).poll platform state
      simp only [Engine.Watching, after, answer, Engine.update, hsession, Action.bind_apply]
      cases (platform.poll session state).1.failure with
      | some failure => exact Engine.watching_of_detached rfl
      | none =>
        rintro _ ⟨⟩
        exact hwatches

/-- A session goes on through the updates that its process answers, and through nothing else. -/
theorem isAttached_after_iff {session : Session π} (h : call.engine.session = some session)
    (hwatches : session.WatchesFlags) :
    (call.after platform).isAttached = true ↔ call.request = .update ∧ session.Answers platform call.state := by
  have hpoll := platform.failure_poll_eq_none_iff hwatches call.state
  obtain ⟨engine, request, state⟩ := call
  replace h : engine.session = some session := h
  cases request with
  | shutdown =>
    rw [Engine.isAttached, detached_of_shutdown platform _ rfl]
    exact ⟨nofun, fun hupdate => nomatch hupdate.1⟩
  | update =>
    have hanswers : (Request.update = .update ∧ session.Answers platform state) ↔ session.Answers platform state :=
      and_iff_right rfl
    rw [hanswers, ← hpoll]
    simp only [Engine.isAttached, after, answer, Engine.update, h, Action.bind_apply]
    cases (platform.poll session state).1.failure with
    | none => exact ⟨fun _ => rfl, fun _ => rfl⟩
    | some failure => exact ⟨nofun, nofun⟩

/-- A call of an attached engine passes on the changes that it has seen, which lead to the signal afterwards. If it
ends the session, a `false` follows them. -/
private theorem attached {session : Session π} (h : call.engine.session = some session) :
    (∃ session', (call.after platform).session = some session' ∧ call.events platform = call.changes platform ∧
        Toggles session.signal.current (call.changes platform) session'.signal.current) ∨
      ((call.after platform).session = none ∧ call.events platform = call.changes platform ++ [false] ∧
        ∃ b, Toggles session.signal.current (call.changes platform) b) := by
  obtain ⟨engine, request, state⟩ := call
  replace h : engine.session = some session := h
  cases request with
  | shutdown =>
    right
    simp only [events, after, answer, changes, Engine.shutdown, h, Action.bind_apply, Action.pure_apply, true_and,
      List.nil_append]
    exact ⟨_, rfl⟩
  | update =>
    have htoggles := platform.toggles_poll session state
    simp only [events, after, answer, changes, Engine.update, h, Action.bind_apply]
    cases hfailure : (platform.poll session state).1.failure with
    | none =>
      left
      exact ⟨_, rfl, rfl, htoggles⟩
    | some failure =>
      right
      exact ⟨rfl, rfl, _, htoggles⟩

/-- After a call the last event, or the signal before the call if there was none, is the present signal. -/
private theorem getLast?_events :
    (call.events platform).getLast?.getD call.engine.isLoading = (call.after platform).isLoading := by
  cases h : call.engine.session with
  | none =>
    obtain ⟨hevents, hafter⟩ := call.detached platform h
    rw [hevents, hafter]
    simp only [List.getLast?_nil, Option.getD_none, Engine.isLoading, h]
  | some session =>
    have hbefore : call.engine.isLoading = session.signal.current := by simp only [Engine.isLoading, h]
    rcases call.attached platform h with ⟨session', hafter, hevents, htoggles⟩ | ⟨hafter, hevents, -⟩
    · rw [hevents, hbefore, htoggles.getLast?_getD]
      simp only [Engine.isLoading, hafter]
    · rw [hevents, List.getLast?_concat]
      simp only [Option.getD_some, Engine.isLoading, hafter]

private theorem isChain_events :
    (call.engine.isLoading :: call.events platform).IsChain fun a b => ¬(a = true ∧ b = true) := by
  cases h : call.engine.session with
  | none =>
    rw [(call.detached platform h).1]
    exact List.isChain_singleton _
  | some session =>
    have hbefore : call.engine.isLoading = session.signal.current := by simp only [Engine.isLoading, h]
    rw [hbefore]
    rcases call.attached platform h with ⟨session', hafter, hevents, htoggles⟩ | ⟨hafter, hevents, b, htoggles⟩
    · rw [hevents]
      exact htoggles.isChain
    · rw [hevents, ← List.cons_append, List.isChain_append]
      refine ⟨htoggles.isChain, List.isChain_singleton _, ?_⟩
      intro x _ y hy
      simp only [List.head?_cons, Option.mem_def, Option.some.injEq] at hy
      simp [← hy]

end Call

/-! ### Runs -/

namespace Engine

variable {σ π : Type} (platform : Platform σ π)

/-- The calls that make up a run: each finds the engine as the call before it has left it, and the world in any
state. -/
def calls : Engine π → List (Request × Traced σ) → List (Call σ π)
  | _, [] => []
  | engine, (request, state) :: rest =>
    let call := ⟨engine, request, state⟩
    call :: calls (call.after platform) rest

/-- Each call finds the engine as the call before it has left it. -/
def Linked : Engine π → List (Call σ π) → Prop
  | _, [] => True
  | engine, call :: rest => call.engine = engine ∧ Linked (call.after platform) rest

def afterAll (engine : Engine π) (calls : List (Call σ π)) : Engine π :=
  calls.foldl (fun _ call => call.after platform) engine

def eventsOf (calls : List (Call σ π)) : List Bool := calls.flatMap (·.events platform)

/-- The calls begin with one that attaches, and the others leave the engine attached. -/
def IsSession : List (Call σ π) → Prop
  | [] => False
  | first :: rest =>
    first.engine.isAttached = false ∧ ∀ call ∈ first :: rest, (call.after platform).isAttached = true

theorem linked_calls (engine : Engine π) (turns : List (Request × Traced σ)) :
    Linked platform engine (engine.calls platform turns) := by
  induction turns generalizing engine with
  | nil => exact True.intro
  | cons turn rest ih => exact ⟨rfl, ih _⟩

variable {platform}

theorem Linked.append {engine : Engine π} {xs ys : List (Call σ π)} (h : Linked platform engine (xs ++ ys)) :
    Linked platform engine xs ∧ Linked platform (engine.afterAll platform xs) ys := by
  induction xs generalizing engine with
  | nil => exact ⟨True.intro, h⟩
  | cons x xs ih =>
    have := ih h.2
    exact ⟨⟨h.1, this.1⟩, this.2⟩

theorem Linked.watching {engine : Engine π} {xs : List (Call σ π)} (h : Linked platform engine xs)
    (hengine : engine.Watching) : (engine.afterAll platform xs).Watching := by
  induction xs generalizing engine with
  | nil => exact hengine
  | cons x xs ih =>
    obtain ⟨rfl, htail⟩ := h
    exact ih htail (x.watching_after platform hengine)

theorem isLoading_of_detached {engine : Engine π} (h : engine.isAttached = false) : engine.isLoading = false := by
  unfold isAttached at h
  unfold isLoading
  cases hs : engine.session with
  | none => rfl
  | some session => simp [hs] at h

theorem Linked.getLast?_eventsOf {engine : Engine π} {xs : List (Call σ π)} (h : Linked platform engine xs) :
    (eventsOf platform xs).getLast?.getD engine.isLoading = (engine.afterAll platform xs).isLoading := by
  induction xs generalizing engine with
  | nil => rfl
  | cons x xs ih =>
    obtain ⟨rfl, htail⟩ := h
    have hx := x.getLast?_events platform
    have hxs := ih htail
    rw [← hx] at hxs
    have hcons : afterAll platform x.engine (x :: xs) = afterAll platform (x.after platform) xs := rfl
    simp only [eventsOf, List.flatMap_cons, List.getLast?_append, hcons] at hxs ⊢
    cases hlast : (xs.flatMap (·.events platform)).getLast? with
    | none => simpa [hlast] using hxs
    | some b => simpa [hlast] using hxs

theorem Linked.isChain_eventsOf {engine : Engine π} {xs : List (Call σ π)} (h : Linked platform engine xs) :
    (engine.isLoading :: eventsOf platform xs).IsChain fun a b => ¬(a = true ∧ b = true) := by
  induction xs generalizing engine with
  | nil => exact List.isChain_singleton _
  | cons x xs ih =>
    obtain ⟨rfl, htail⟩ := h
    have hx := x.isChain_events platform
    have hxs := ih htail
    rw [← x.getLast?_events platform] at hxs
    rw [eventsOf, List.flatMap_cons, ← List.cons_append, List.isChain_append]
    refine ⟨hx, (List.isChain_cons.1 hxs).2, ?_⟩
    intro a ha b hb
    rw [List.getLast?_cons, Option.mem_def, Option.some.injEq] at ha
    rw [← ha]
    exact (List.isChain_cons.1 hxs).1 b hb

/-- As long as an engine stays attached, the events lead from the signal before to the signal after. -/
private theorem Linked.toggles {engine : Engine π} {session : Session π} {xs : List (Call σ π)}
    (h : Linked platform engine xs) (hs : engine.session = some session)
    (hxs : ∀ call ∈ xs, (call.after platform).isAttached = true) :
    ∃ session', (engine.afterAll platform xs).session = some session' ∧
      Toggles session.signal.current (eventsOf platform xs) session'.signal.current := by
  induction xs generalizing engine session with
  | nil => exact ⟨session, hs, rfl⟩
  | cons x xs ih =>
    obtain ⟨rfl, htail⟩ := h
    have hx := hxs x (List.mem_cons_self ..)
    rcases x.attached platform hs with ⟨session', hafter, hevents, htoggles⟩ | ⟨hafter, -, -⟩
    · obtain ⟨last, hlast, hrest⟩ := ih htail hafter fun call hcall => hxs call (List.mem_cons_of_mem _ hcall)
      refine ⟨last, hlast, ?_⟩
      rw [eventsOf, List.flatMap_cons, hevents]
      exact htoggles.append hrest
    · simp [isAttached, hafter] at hx

private theorem Linked.toggles_session {engine : Engine π} {xs : List (Call σ π)} (h : Linked platform engine xs)
    (hxs : IsSession platform xs) :
    ∃ session', (engine.afterAll platform xs).session = some session' ∧
      Toggles false (eventsOf platform xs) session'.signal.current := by
  cases xs with
  | nil => exact hxs.elim
  | cons first rest =>
    obtain ⟨rfl, htail⟩ := h
    obtain ⟨hdetached, hattached⟩ := hxs
    have hnone : first.engine.session = none := by simpa [isAttached] using hdetached
    obtain ⟨hevents, hloading⟩ := first.detached platform hnone
    obtain ⟨session, hs⟩ := Option.isSome_iff_exists.1 (hattached first (List.mem_cons_self ..))
    obtain ⟨last, hlast, htoggles⟩ := htail.toggles hs fun call hcall => hattached call (List.mem_cons_of_mem _ hcall)
    have hstart : session.signal.current = false := by simpa only [isLoading, hs] using hloading
    refine ⟨last, hlast, ?_⟩
    rw [eventsOf, List.flatMap_cons, hevents, List.nil_append, ← hstart]
    exact htoggles

/-- What a listener hears from an engine, whatever happens to the world between and during its calls.

* After each call the last event is the present signal, which is off while the engine is detached, and a call of a
  detached engine gives no event.
* The events of a session are `true`, `false`, `true`, …, and the call that ends it, for whatever reason, adds one
  `false` to the changes that its poll has seen, which continue the session's events.
* A session goes on through the updates at which its process lives and both flags can be read. Any other call ends it:
  an update that finds the process ended or cannot read one of the flags, and a shutdown.
* Between two `true` of the whole run there is a `false`. -/
theorem events_follow_signal (platform : Platform σ π) (config : EngineConfig) (turns : List (Request × Traced σ)) :
    (∀ before call rest, calls platform { config } turns = before ++ call :: rest →
      (eventsOf platform (before ++ [call])).getLast?.getD false = (call.after platform).isLoading ∧
      ((call.after platform).isAttached = false → (call.after platform).isLoading = false) ∧
      (call.engine.isAttached = false → call.events platform = [])) ∧
    (∀ before session rest, calls platform { config } turns = before ++ session ++ rest →
      IsSession platform session →
      (∃ n, eventsOf platform session = alternating n) ∧
      ∀ last ∈ rest.head?, (last.after platform).isAttached = false →
        last.events platform = last.changes platform ++ [false] ∧
        ∃ n, eventsOf platform session ++ last.changes platform = alternating n) ∧
    (∀ before call rest, calls platform { config } turns = before ++ call :: rest →
      ∀ session ∈ call.engine.session,
        (call.after platform).isAttached = true ↔ call.request = .update ∧ session.Answers platform call.state) ∧
    (eventsOf platform (calls platform { config } turns)).IsChain fun a b => ¬(a = true ∧ b = true) := by
  have hlinked := linked_calls platform { config } turns
  refine ⟨?_, ?_, ?_, ?_⟩
  · intro before call rest hsplit
    rw [hsplit, ← List.singleton_append, ← List.append_assoc] at hlinked
    have hlast := hlinked.append.1.getLast?_eventsOf
    refine ⟨?_, isLoading_of_detached, fun hdetached => ?_⟩
    · rw [afterAll, List.foldl_append] at hlast
      exact hlast
    · exact (call.detached platform (by simpa [isAttached] using hdetached)).1
  · intro before session rest hsplit hsession
    rw [hsplit] at hlinked
    obtain ⟨hbefore, hrest⟩ := hlinked.append
    obtain ⟨present, hpresent, htoggles⟩ := hbefore.append.2.toggles_session hsession
    refine ⟨⟨_, htoggles.eq_alternating⟩, ?_⟩
    intro last hlast hended
    -- the call after the session finds the engine as the session has left it
    obtain ⟨rest', rfl⟩ : ∃ rest', rest = last :: rest' := List.head?_eq_some_iff.1 hlast
    have hengine : last.engine.session = some present := by
      rw [hrest.1, afterAll, List.foldl_append]
      exact hpresent
    rcases last.attached platform hengine with ⟨session', hafter, -, -⟩ | ⟨-, hevents, b, hchanges⟩
    · simp [isAttached, hafter] at hended
    · exact ⟨hevents, _, (htoggles.append hchanges).eq_alternating⟩
  · intro before call rest hsplit session hsession
    rw [hsplit] at hlinked
    obtain ⟨hbefore, hcall, -⟩ := hlinked.append
    have hwatching : call.engine.Watching := hcall ▸ hbefore.watching (watching_of_detached rfl)
    exact call.isAttached_after_iff platform hsession (hwatching session hsession)
  · exact (List.isChain_cons.1 hlinked.isChain_eventsOf).2

end Engine

end LoadRemover
