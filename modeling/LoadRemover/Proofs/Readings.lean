import LoadRemover.Proofs.Visits

/-!
# What polls read and what the listener hears

A poll that does not end its session reads two bytes, the loading flag and the modal flag, and takes them in one
after the other. The invariant of a session is that it holds its last reading (`Session.Holds`): both watched values
and both inputs of the signal are the bytes of this reading, or nothing was read yet. So the events of a poll are the
changes along the two values that the signal goes through, with the new loading flag and the old modal flag first
(`Call.poll_spec`), and the events of a session are the changes along the readings of its polls
(`Engine.events_along_readings`).

The value in between is that of neither reading. It differs from both only if an ambiguous loading flag meets a modal
flag that turns over in the same poll (`Reading.blinks_iff`), and then the listener hears of it
(`InMemory.blink_of_ambiguous_flag`).
-/

namespace LoadRemover

/-! ### Changes along a list -/

/-- The values that differ from the one before them. What stands before the first is `a`. -/
def changesFrom : Bool → List Bool → List Bool
  | _, [] => []
  | a, b :: rest => (if b = a then [] else [b]) ++ changesFrom b rest

private theorem changesFrom_append (a : Bool) (xs ys : List Bool) :
    changesFrom a (xs ++ ys) = changesFrom a xs ++ changesFrom (xs.getLast?.getD a) ys := by
  induction xs generalizing a with
  | nil => rfl
  | cons x xs ih =>
    have hlast : (x :: xs).getLast?.getD a = xs.getLast?.getD x := by rw [List.getLast?_cons, Option.getD_some]
    rw [hlast, List.cons_append, changesFrom, changesFrom, ih, List.append_assoc]

/-! ### The signal after a reading -/

/-- The loading flag and the modal flag, as one poll reads them. -/
abbrev Reading := UInt8 × UInt8

def Reading.isLoading (reading : Reading) : Bool := LoadRemover.isLoading reading.1 reading.2

/-- The values of the signal when a reading is taken in that comes after a modal flag `modal`: the new loading flag
meets the old modal flag first. -/
def Reading.signals (modal : UInt8) (reading : Reading) : List Bool :=
  [LoadRemover.isLoading reading.1 modal, reading.isLoading]

/-- The values of the signal along readings that come after a modal flag `modal`. -/
def signalsAlong : UInt8 → List Reading → List Bool
  | _, [] => []
  | modal, reading :: rest => reading.signals modal ++ signalsAlong reading.2 rest

/-- Two readings with one signal between which the signal is another one: the loading flag becomes ambiguous in the
poll in which the modal flag turns over. -/
def Reading.Blinks (old new : Reading) : Prop :=
  old.1 ≠ Flag.ambiguous ∧ new.1 = Flag.ambiguous ∧ old.isLoading = new.isLoading ∧ (old.2 = 0 ↔ new.2 ≠ 0)

instance (old new : Reading) : Decidable (old.Blinks new) := inferInstanceAs (Decidable (_ ∧ _ ∧ _ ∧ _))

private theorem Reading.isLoading_ambiguous (modal : UInt8) :
    Reading.isLoading (Flag.ambiguous, modal) = (modal != 0) := by
  rw [Reading.isLoading, LoadRemover.isLoading, if_pos rfl]

/-- The two readings have one signal, and the value in between is another. -/
private theorem Reading.blinks_iff (old new : Reading) :
    old.Blinks new ↔ old.isLoading = new.isLoading ∧ LoadRemover.isLoading new.1 old.2 ≠ new.isLoading := by
  obtain ⟨loading₀, modal₀⟩ := old
  obtain ⟨loading, modal⟩ := new
  have hsame : ∀ m m' : UInt8, ((m != 0) ≠ (m' != 0)) ↔ (m = 0 ↔ m' ≠ 0) := by
    intro m m'
    by_cases hm : m = 0 <;> by_cases hm' : m' = 0 <;> simp [bne, hm, hm']
  by_cases hnew : loading = Flag.ambiguous
  · subst hnew
    have hbetween : LoadRemover.isLoading Flag.ambiguous modal₀ = (modal₀ != 0) := isLoading_ambiguous modal₀
    simp only [Blinks, isLoading_ambiguous, hbetween, hsame, true_and]
    refine ⟨fun h => h.2, fun h => ⟨?_, h⟩⟩
    -- after an ambiguous loading flag the value in between is the signal of before
    rintro rfl
    rw [isLoading_ambiguous] at h
    exact (hsame _ _).2 h.2 h.1
  · have hbetween : LoadRemover.isLoading loading modal₀ = LoadRemover.isLoading loading modal := by
      rw [LoadRemover.isLoading, LoadRemover.isLoading, if_neg hnew, if_neg hnew]
    refine ⟨fun h => absurd h.2.1 hnew, fun h => absurd hbetween h.2⟩

/-- What a new reading makes of the signal: nothing if it stays, its new value if it does not, and both values if the
readings blink. -/
private theorem changesFrom_signals (old new : Reading) :
    changesFrom old.isLoading (new.signals old.2) =
      if old.Blinks new then [!new.isLoading, new.isLoading]
      else if new.isLoading = old.isLoading then [] else [new.isLoading] := by
  simp only [Reading.blinks_iff, Reading.signals, changesFrom, List.append_nil]
  generalize LoadRemover.isLoading new.1 old.2 = between
  generalize new.isLoading = after
  generalize old.isLoading = before
  cases before <;> cases between <;> cases after <;> rfl

/-- Without a blink the changes along readings are those of the signal. -/
private theorem changesFrom_signalsAlong {old : Reading} {readings : List Reading}
    (h : (old :: readings).IsChain fun old new => ¬ old.Blinks new) :
    changesFrom old.isLoading (signalsAlong old.2 readings) =
      changesFrom old.isLoading (readings.map Reading.isLoading) := by
  induction readings generalizing old with
  | nil => rfl
  | cons new rest ih =>
    obtain ⟨hfirst, hrest⟩ := List.isChain_cons_cons.1 h
    rw [signalsAlong, changesFrom_append, changesFrom_signals, if_neg hfirst, List.map_cons, changesFrom, ← ih hrest]
    rfl

namespace LoadSignal

/-- The signal that has taken in a reading. -/
def ofReading (reading : Reading) : LoadSignal := ⟨reading.1, reading.2, reading.isLoading⟩

private theorem refresh_eq (signal : LoadSignal) :
    signal.refresh = (ofReading (signal.loading, signal.modal),
      if Reading.isLoading (signal.loading, signal.modal) = signal.current then none
      else some (Reading.isLoading (signal.loading, signal.modal))) := by
  unfold refresh
  by_cases hsame : LoadRemover.isLoading signal.loading signal.modal = signal.current
  · rw [if_pos hsame, if_pos (show Reading.isLoading (signal.loading, signal.modal) = signal.current from hsame)]
    rw [ofReading, Reading.isLoading, hsame]
  · rw [if_neg hsame, if_neg (show ¬ Reading.isLoading (signal.loading, signal.modal) = signal.current from hsame)]
    rfl

private theorem record_loading (old : Reading) (value : UInt8) :
    (ofReading old).record .loading value = (ofReading (value, old.2),
      if Reading.isLoading (value, old.2) = old.isLoading then none
      else some (Reading.isLoading (value, old.2))) :=
  refresh_eq { ofReading old with loading := value }

private theorem record_modal (old : Reading) (value : UInt8) :
    (ofReading old).record .modal value = (ofReading (old.1, value),
      if Reading.isLoading (old.1, value) = old.isLoading then none
      else some (Reading.isLoading (old.1, value))) :=
  refresh_eq { ofReading old with modal := value }

/-- Both bytes of a reading, taken in after the reading `old`. -/
private theorem recordAll_reading (old reading : Reading) :
    (ofReading old).recordAll [(.loading, reading.1), (.modal, reading.2)] =
      (ofReading reading, changesFrom old.isLoading (reading.signals old.2)) := by
  have htoList : ∀ (b c : Bool), (if b = c then none else some b : Option Bool).toList = if b = c then [] else [b] := by
    intro b c
    split <;> rfl
  simp only [recordAll, record_loading, record_modal, htoList, changesFrom, Reading.signals, List.append_nil]
  rfl

/-- A byte that is what it was changes nothing. -/
private theorem recordAll_changed (old reading : Reading) :
    (ofReading old).recordAll ((if old.1 = reading.1 then [] else [(.loading, reading.1)]) ++
        if old.2 = reading.2 then [] else [(.modal, reading.2)]) =
      (ofReading old).recordAll [(.loading, reading.1), (.modal, reading.2)] := by
  have hloading : (ofReading old).record .loading old.1 = (ofReading old, none) := by
    rw [record_loading, if_pos rfl]
  have hmodal : ∀ loading, (ofReading (loading, old.2)).record .modal old.2 = (ofReading (loading, old.2), none) := by
    intro loading
    rw [record_modal, if_pos rfl]
  by_cases h₁ : old.1 = reading.1 <;> by_cases h₂ : old.2 = reading.2
  · rw [if_pos h₁, if_pos h₂, ← h₁, ← h₂]
    simp only [List.append_nil, recordAll, hloading]
    rw [show (ofReading old).record .modal old.2 = _ from hmodal old.1]
    rfl
  · rw [if_pos h₁, if_neg h₂, ← h₁]
    simp only [List.nil_append, recordAll, hloading]
    rfl
  · rw [if_neg h₁, if_pos h₂, ← h₂]
    simp only [List.append_nil, recordAll, record_loading, hmodal, Option.toList_none]
  · rw [if_neg h₁, if_neg h₂]
    rfl

end LoadSignal

/-! ### What a session holds -/

namespace Session

variable {π : Type}

/-- The session with `last` as its last reading, if there was one. -/
def holding (session : Session π) (last : Option Reading) : Session π :=
  { session with
    watched := [(.loading, ⟨session.flag, last.map Prod.fst⟩),
      (.modal, ⟨session.moduleBase + session.build.modal, last.map Prod.snd⟩)]
    signal := .ofReading (last.getD (0, 0))
    primed := last.isSome }

/-- All that the session knows about the flags is its last reading. -/
def Holds (session : Session π) (last : Option Reading) : Prop := session = session.holding last

private theorem holds_start (candidate : Candidate π) (base : UInt32) : (Session.start candidate base).Holds none := rfl

theorem holds_holding (session : Session π) (last : Option Reading) : (session.holding last).Holds last := rfl

private theorem holding_holding (session : Session π) (last last' : Option Reading) :
    (session.holding last).holding last' = session.holding last' := rfl

/-- The accesses of a poll that reads both flags. -/
def looks (session : Session π) (loading modal : Bytes) : List Access :=
  [.hasExited false, .read session.flag 1 (.ok loading),
    .read (session.moduleBase + session.build.modal) 1 (.ok modal)]

end Session

/-! ### Polling -/

/-- What it makes of watched values to observe one new value for each. -/
def WatchList.observeAll {κ α : Type} [DecidableEq α] :
    WatchList κ α → List α → WatchList κ α × List (κ × Change α)
  | (key, watched) :: rest, value :: values =>
    let (watched, change) := watched.observe value
    let (list, changes) := observeAll rest values
    ((key, watched) :: list, (change.map (key, ·)).toList ++ changes)
  | _, _ => ([], [])

/-- What a new reading changes in the watched values of a session, as the signal takes it in. -/
private theorem Session.changes_observeAll {π : Type} (session : Session π) (old reading : Reading) :
    ((session.holding (some old)).watched.observeAll [reading.1, reading.2]).2.map (fun one => (one.1, one.2.new)) =
      (if old.1 = reading.1 then [] else [(.loading, reading.1)]) ++
        if old.2 = reading.2 then [] else [(.modal, reading.2)] := by
  have hone : ∀ (input : Input) (a b : UInt8),
      (((if a = b then none else some (⟨a, b⟩ : Change UInt8)).map (Prod.mk input)).toList).map
        (fun one => (one.1, one.2.new)) = if a = b then [] else [(input, b)] := by
    intro input a b
    split <;> rfl
  rw [← hone, ← hone, ← List.map_append, ← List.append_nil (Option.toList (Option.map (Prod.mk Input.modal) _))]
  rfl

/-- What polling relies on: as long as `now` is true, a living process answers reads as `sees` says. -/
structure Platform.Readable {σ π : Type} (platform : Platform σ π) (process : π) (sees : UInt32 → Nat → Bytes → Prop)
    (now : σ → Prop) : Prop where
  hasExited : Action.Ensures now (platform.hasExited process) fun exited w => exited = false → now w
  read : ∀ a n, Attempt.Ensures now (platform.read process a n) (fun bytes w => sees a n bytes ∧ now w) fun _ => True

private theorem Platform.readable_true {σ π : Type} (platform : Platform σ π) (process : π) :
    platform.Readable process (fun _ _ _ => True) fun _ => True where
  hasExited := Action.Ensures.trivial.post_mono fun _ _ _ _ => True.intro
  read _ _ := Attempt.Ensures.trivial.post_mono fun _ _ _ => ⟨True.intro, True.intro⟩

theorem Platform.Quiet.readable {σ π : Type} {platform : Platform σ π} {sight : Sight π} {now gone : σ → Prop}
    (h : platform.Quiet sight now gone) (process : π) :
    platform.Readable process (fun a n bytes => sight.read process a n = some bytes) now where
  hasExited := (h.hasExited process).post_mono fun exited w hw hliving => by
    rw [hliving] at hw
    exact hw
  read a n := (h.read process a n).failed_mono fun _ _ => True.intro

namespace Journal

variable {σ π : Type} {inner : Platform σ π} {process : π} {sees : UInt32 → Nat → Bytes → Prop} {now : σ → Prop}

private theorem ensures_read (hreadable : inner.Readable process sees now) (before : List Access) (address : UInt32)
    (n : Nat) :
    Attempt.Ensures (fun s : Journal σ => s.accesses = before ∧ now s.world)
      ((platform inner).read process address n)
      (fun bytes s => s.accesses = before ++ [.read address n (.ok bytes)] ∧ sees address n bytes ∧ now s.world)
      fun _ => True := by
  refine @ensures_attempted _ _ (.read address n) _ (fun accesses w => accesses = before ∧ now w)
    (fun bytes accesses w => accesses = before ++ [.read address n (.ok bytes)] ∧ sees address n bytes ∧ now w)
    (fun _ _ => True) fun accesses => Action.Ensures.of_imp ?_
  rintro rfl
  exact (hreadable.read address n).ends_mono (fun _ _ hw => ⟨rfl, hw⟩) fun _ _ _ => True.intro

/-- A complete sweep reads every value once, in order. -/
private theorem ensures_updateAll {κ α : Type} [DecidableEq α] (hreadable : inner.Readable process sees now)
    (layout : Layout α) (list : WatchList κ α) (before : List Access) :
    Action.Ensures (fun s : Journal σ => s.accesses = before ∧ now s.world)
      (list.updateAll (platform inner) process layout)
      fun sweep s => sweep.failure = none → ∃ answers : List Bytes, answers.length = list.length ∧
        s.accesses = before ++
          (list.zip answers).map (fun one => .read one.1.2.address layout.width (.ok one.2)) ∧
        (∀ one ∈ list.zip answers, sees one.1.2.address layout.width one.2) ∧ now s.world ∧
        (sweep.list, sweep.changes) = list.observeAll (answers.map layout.decode) := by
  induction list generalizing before with
  | nil =>
    refine Action.Ensures.pure fun s hs _ => ⟨[], rfl, ?_, nofun, hs.2, rfl⟩
    rw [hs.1, List.zip_nil_left, List.map_nil, List.append_nil]
  | cons entry rest ih =>
    obtain ⟨key, watched⟩ := entry
    have hupdate : Attempt.Ensures (fun s : Journal σ => s.accesses = before ∧ now s.world)
        (watched.update (platform inner) process layout)
        (fun observed s => ∃ bytes, observed = watched.observe (layout.decode bytes) ∧
          s.accesses = before ++ [.read watched.address layout.width (.ok bytes)] ∧
          sees watched.address layout.width bytes ∧ now s.world) fun _ => True :=
      Attempt.Ensures.bind (ensures_read hreadable before watched.address layout.width) fun bytes =>
        Attempt.Ensures.pure fun s hs => ⟨bytes, rfl, hs⟩
    refine Action.Ensures.bind hupdate fun result => ?_
    cases result with
    | error failure => exact Action.Ensures.pure fun _ _ hnone => nomatch hnone
    | ok observed =>
      rintro s ⟨bytes, rfl, hs, hsees, hnow⟩
      have hrest := ih (before ++ [.read watched.address layout.width (.ok bytes)]) s ⟨hs, hnow⟩
      intro hnone
      obtain ⟨answers, hlength, haccesses, hanswers, hnow', hsweep⟩ := hrest hnone
      refine ⟨bytes :: answers, by rw [List.length_cons, List.length_cons, hlength], ?_, ?_, hnow', ?_⟩
      · rw [List.zip_cons_cons, List.map_cons, List.append_cons]
        exact haccesses
      · rw [List.zip_cons_cons]
        exact List.forall_mem_cons.2 ⟨hsees, hanswers⟩
      · rw [List.map_cons, WatchList.observeAll, ← hsweep]
        rfl

/-- A poll that does not fail takes in one reading. -/
private theorem ensures_poll {session : Session π} {last : Option Reading}
    (hreadable : inner.Readable session.process sees now) (h : session.Holds last) :
    Action.Ensures (fun s : Journal σ => s.accesses = [] ∧ now s.world) ((platform inner).poll session) fun poll s =>
      poll.failure = none → ∃ loading modal : Bytes, s.accesses = session.looks loading modal ∧
        (sees session.flag 1 loading ∧ sees (session.moduleBase + session.build.modal) 1 modal ∧ now s.world) ∧
        poll.session = session.holding (some (loading.headD 0, modal.headD 0)) ∧
        poll.events = changesFrom session.signal.current
          (Reading.signals (last.getD (0, 0)).2 (loading.headD 0, modal.headD 0)) := by
  have hexited : Action.Ensures (fun s : Journal σ => s.accesses = [] ∧ now s.world)
      ((platform inner).hasExited session.process)
      fun exited s => s.accesses = [.hasExited exited] ∧ (exited = false → now s.world) := by
    refine @ensures_noted _ _ .hasExited _ (fun accesses w => accesses = [] ∧ now w)
      (fun exited accesses w => accesses = [.hasExited exited] ∧ (exited = false → now w)) fun accesses => ?_
    refine Action.Ensures.of_imp ?_
    rintro rfl
    exact hreadable.hasExited.post_mono fun _ _ hw => ⟨rfl, hw⟩
  unfold Platform.poll
  refine Action.Ensures.bind hexited fun exited => ?_
  cases exited with
  | true => exact Action.Ensures.pure fun _ _ hnone => nomatch hnone
  | false =>
    have hsweep := (ensures_updateAll hreadable .byte session.watched [.hasExited false]).mono
      (fun s (hs : s.accesses = [.hasExited false] ∧ (false = false → now s.world)) => ⟨hs.1, hs.2 rfl⟩)
      fun _ _ hs => hs
    refine Action.Ensures.bind hsweep fun sweep => ?_
    refine Action.Ensures.bind (Action.Ensures.forIn fun _ _ =>
      Action.Ensures.bind Action.Ensures.report fun _ => Action.Ensures.pure fun _ hw => hw) fun _ => ?_
    obtain ⟨list, changes, failure⟩ := sweep
    cases failure with
    | some failure =>
      simp only [Option.isNone_some, Bool.false_and, Bool.false_eq_true, ↓reduceIte]
      exact Action.Ensures.pure fun _ _ hnone => nomatch hnone
    | none =>
      intro s hs
      obtain ⟨answers, hlength, haccesses, hanswers, hnow, hsweep⟩ := hs rfl
      rw [h] at hlength haccesses hanswers hsweep
      match answers, hlength with
      | [loading, modal], _ =>
      obtain ⟨hlist, hchanges⟩ := Prod.mk.inj hsweep
      replace hlist : list = (session.holding (some (loading.headD 0, modal.headD 0))).watched := hlist
      subst hlist hchanges
      have hsees : sees session.flag 1 loading ∧ sees (session.moduleBase + session.build.modal) 1 modal ∧
          now s.world.world :=
        ⟨hanswers _ (List.mem_cons_self ..), hanswers _ (List.mem_cons_of_mem _ (List.mem_cons_self ..)), hnow⟩
      cases last with
      | none =>
        rw [h]
        -- the first reading changes nothing that is watched, and then both flags are taken in
        have hseeds := LoadSignal.recordAll_reading (0, 0) (loading.headD 0, modal.headD 0)
        intro _
        refine ⟨loading, modal, haccesses, hsees, ?_, congrArg Prod.snd hseeds⟩
        exact congrArg (fun recorded : LoadSignal × List Bool =>
          { session.holding (some (loading.headD 0, modal.headD 0)) with signal := recorded.1 }) hseeds
      | some old =>
        rw [h]
        have hchanges := session.changes_observeAll old (loading.headD 0, modal.headD 0)
        have hrecorded := LoadSignal.recordAll_changed old (loading.headD 0, modal.headD 0)
        rw [← hchanges, LoadSignal.recordAll_reading] at hrecorded
        intro _
        refine ⟨loading, modal, haccesses, hsees, ?_, congrArg Prod.snd hrecorded⟩
        exact congrArg (fun recorded : LoadSignal × List Bool =>
          { session.holding (some (loading.headD 0, modal.headD 0)) with signal := recorded.1 }) hrecorded

end Journal

/-! ### Calls -/

namespace Call

variable {σ π : Type} (platform : Platform σ π) (call : Call σ π)

/-- The call, with its accesses written down. -/
def journaled : (Engine π × List Bool) × Traced (Journal σ) :=
  (Call.mk call.engine call.request (Journal.start call.state)).answer (Journal.platform platform)

/-- The accesses that the call makes. -/
def accesses : List Access := (call.journaled platform).2.world.accesses

theorem answer_eq : call.answer platform =
    ((call.journaled platform).1, ⟨(call.journaled platform).2.world.world, (call.journaled platform).2.log⟩) :=
  (Journal.erases platform).answer call.engine call.request (Journal.start call.state)

/-- The bytes that a poll has read at the addresses of the two flags, if it could read both. -/
def reading? : Option Reading :=
  match call.engine.session, call.accesses platform with
  | some session, [.hasExited false, .read a 1 (.ok loading), .read b 1 (.ok modal)] =>
    if a = session.flag ∧ b = session.moduleBase + session.build.modal then some (loading.headD 0, modal.headD 0)
    else none
  | _, _ => none

variable {platform call}

/-- A call that begins a session begins it with nothing read. -/
private theorem attaching {session : Session π} (h : call.engine.session = none)
    (hafter : (call.after platform).session = some session) :
    ∃ candidate base, session = Session.start candidate base := by
  obtain ⟨engine, request, state⟩ := call
  replace h : engine.session = none := h
  cases request with
  | shutdown =>
    rw [detached_of_shutdown platform _ rfl] at hafter
    cases hafter
  | update =>
    let started (engine' : Engine π) : Prop :=
      ∀ session ∈ engine'.session, ∃ candidate base, session = Session.start candidate base
    have hstays : started engine := fun session hsession => absurd (h ▸ hsession) (Option.not_mem_none session)
    have hfind : Action.Ensures (fun _ => True) (platform.findTarget engine.config.processName) fun candidate? _ =>
        (candidate? = none → started engine) ∧ ∀ candidate ∈ candidate?, True :=
      Action.Ensures.trivial.post_mono fun _ _ _ => ⟨fun _ => hstays, fun _ _ => trivial⟩
    have htry : Action.Ensures (fun _ => True) (engine.tryAttach platform) fun engine' _ => started engine' := by
      refine Engine.ensures_tryAttach hfind fun candidate => ?_
      refine (platform.confined_true candidate.process).ensures_attach.ends_mono ?_ fun _ _ => hstays
      rintro _ _ ⟨⟨base, rfl⟩, -⟩ _ ⟨⟩
      exact ⟨candidate, base, rfl⟩
    simp only [after, answer, Engine.update, h, Action.bind_apply, Action.pure_apply] at hafter
    exact htry state True.intro session hafter

/-- A call that stays with a session is a poll, and it takes in one reading. -/
theorem poll_spec {session : Session π} {last : Option Reading} {sees : UInt32 → Nat → Bytes → Prop} {now : σ → Prop}
    (h : call.engine.session = some session) (hholds : session.Holds last)
    (hreadable : platform.Readable session.process sees now) (hnow : now call.state.world)
    (hattached : (call.after platform).isAttached = true) :
    ∃ loading modal : Bytes, call.accesses platform = session.looks loading modal ∧
      (sees session.flag 1 loading ∧ sees (session.moduleBase + session.build.modal) 1 modal ∧
        now (call.answer platform).2.world) ∧
      (call.after platform).session = some (session.holding (some (loading.headD 0, modal.headD 0))) ∧
      call.events platform = changesFrom session.signal.current
        (Reading.signals (last.getD (0, 0)).2 (loading.headD 0, modal.headD 0)) := by
  have hanswer := call.answer_eq platform
  obtain ⟨engine, request, state⟩ := call
  replace h : engine.session = some session := h
  cases request with
  | shutdown =>
    rw [Engine.isAttached, detached_of_shutdown platform _ rfl] at hattached
    cases hattached
  | update =>
    have hpoll := Journal.ensures_poll hreadable hholds (Journal.start state) ⟨rfl, hnow⟩
    simp only [after, events, hanswer] at hattached ⊢
    simp only [accesses, journaled, answer, Engine.update, h, Action.bind_apply] at hattached ⊢
    cases hfailure : ((Journal.platform platform).poll session (Journal.start state)).1.failure with
    | some failure =>
      simp only [hfailure] at hattached
      have hdetached : false = true := hattached
      cases hdetached
    | none =>
      obtain ⟨loading, modal, haccesses, hsees, hsession, hevents⟩ := hpoll hfailure
      simp only [Action.pure_apply]
      exact ⟨loading, modal, haccesses, hsees, congrArg some hsession, hevents⟩

private theorem reading?_of_looks {session : Session π} {loading modal : Bytes} (h : call.engine.session = some session)
    (hlooks : call.accesses platform = session.looks loading modal) :
    call.reading? platform = some (loading.headD 0, modal.headD 0) := by
  rw [reading?, h, hlooks]
  exact if_pos ⟨rfl, rfl⟩

private theorem reading?_of_detached (h : call.engine.session = none) : call.reading? platform = none := by
  rw [reading?, h]

end Call

/-! ### Sessions -/

namespace Engine

variable {σ π : Type} {platform : Platform σ π}

/-- The readings of a session. -/
def readings (platform : Platform σ π) (calls : List (Call σ π)) : List Reading :=
  calls.filterMap (·.reading? platform)

/-- As long as an engine stays attached, its session holds the last reading, and the events are the changes along the
readings. -/
private theorem Linked.holds {engine : Engine π} {session : Session π} {last : Option Reading} {xs : List (Call σ π)}
    (h : Linked platform engine xs) (hs : engine.session = some session) (hholds : session.Holds last)
    (hxs : ∀ call ∈ xs, (call.after platform).isAttached = true) :
    (readings platform xs).length = xs.length ∧
      (engine.afterAll platform xs).session = some (session.holding ((readings platform xs).getLast?.or last)) ∧
      eventsOf platform xs = changesFrom session.signal.current
        (signalsAlong (last.getD (0, 0)).2 (readings platform xs)) := by
  induction xs generalizing engine session last with
  | nil =>
    refine ⟨rfl, ?_, rfl⟩
    rw [afterAll, List.foldl_nil, hs, readings, List.filterMap_nil]
    exact congrArg some hholds
  | cons x xs ih =>
    obtain ⟨rfl, htail⟩ := h
    obtain ⟨loading, modal, hlooks, -, hafter, hevents⟩ :=
      Call.poll_spec hs hholds (platform.readable_true _) True.intro (hxs x (List.mem_cons_self ..))
    have hreading := Call.reading?_of_looks hs hlooks
    have hreadings : readings platform (x :: xs) = (loading.headD 0, modal.headD 0) :: readings platform xs := by
      rw [readings, List.filterMap_cons, hreading]
      rfl
    obtain ⟨hlength, hlast, hrest⟩ := ih htail hafter (session.holds_holding _)
      fun call hcall => hxs call (List.mem_cons_of_mem _ hcall)
    rw [hreadings]
    refine ⟨by rw [List.length_cons, List.length_cons, hlength], ?_, ?_⟩
    · have hcons : afterAll platform x.engine (x :: xs) = afterAll platform (x.after platform) xs := rfl
      rw [hcons, hlast, session.holding_holding, List.getLast?_cons]
      cases (readings platform xs).getLast? <;> rfl
    · rw [eventsOf, List.flatMap_cons, signalsAlong, changesFrom_append, hevents]
      exact congrArg (_ ++ ·) hrest

/-- During a session the engine holds the session that the first call began, with the last reading. -/
theorem Linked.holds_session {engine : Engine π} {first : Call σ π} {polls : List (Call σ π)}
    (h : Linked platform engine (first :: polls)) (hsession : IsSession platform (first :: polls)) :
    (readings platform (first :: polls)).length = polls.length ∧
      (∃ session, (first.after platform).session = some session ∧
        (engine.afterAll platform (first :: polls)).session =
          some (session.holding (readings platform (first :: polls)).getLast?)) ∧
      eventsOf platform (first :: polls) = changesFrom false (signalsAlong 0 (readings platform (first :: polls))) := by
  obtain ⟨rfl, htail⟩ := h
  obtain ⟨hdetached, hattached⟩ := hsession
  have hnone : first.engine.session = none := by simpa [isAttached] using hdetached
  obtain ⟨session, hs⟩ := Option.isSome_iff_exists.1 (hattached first (List.mem_cons_self ..))
  obtain ⟨candidate, base, rfl⟩ := Call.attaching hnone hs
  obtain ⟨hlength, hlast, hevents⟩ := htail.holds hs (Session.holds_start candidate base)
    fun call hcall => hattached call (List.mem_cons_of_mem _ hcall)
  have hreadings : readings platform (first :: polls) = readings platform polls := by
    rw [readings, List.filterMap_cons, Call.reading?_of_detached hnone]
    rfl
  rw [hreadings]
  refine ⟨hlength, ⟨_, hs, ?_⟩, ?_⟩
  · rw [Option.or_none] at hlast
    exact hlast
  · rw [eventsOf, List.flatMap_cons, (first.detached platform hnone).1, List.nil_append]
    exact hevents

/-- An attached engine is in a session, which began with one of the calls before. -/
theorem Linked.exists_session {engine : Engine π} {xs : List (Call σ π)} (h : Linked platform engine xs)
    (hdetached : engine.isAttached = false) (hattached : (engine.afterAll platform xs).isAttached = true) :
    ∃ earlier first polls, xs = earlier ++ first :: polls ∧ IsSession platform (first :: polls) := by
  induction xs using List.reverseRecOn with
  | nil => exact nomatch hdetached.symm.trans hattached
  | append_singleton ys y ih =>
    obtain ⟨hys, hy, -⟩ := h.append
    have hlast : engine.afterAll platform (ys ++ [y]) = y.after platform := by
      rw [afterAll, List.foldl_append]
      rfl
    rw [hlast] at hattached
    cases hbefore : y.engine.isAttached with
    | false => exact ⟨ys, y, [], rfl, hbefore, by simpa using hattached⟩
    | true =>
      obtain ⟨earlier, first, polls, rfl, hsession⟩ := ih hys (hy ▸ hbefore)
      refine ⟨earlier, first, polls ++ [y], List.append_assoc .., hsession.1, ?_⟩
      rw [← List.cons_append]
      intro call hcall
      rcases List.mem_append.1 hcall with hcall | hcall
      · exact hsession.2 call hcall
      · rw [List.mem_singleton.1 hcall]
        exact hattached

/-- **What a listener hears are the changes along what polls read.**

* Every poll that does not end its session reads both flags. It gives the new value of the signal if this is not the
  one before the poll, and nothing otherwise, unless the readings blink: then it gives the other value and the old
  one again.
* The events of a session are the changes of the signal along its readings, where each loading flag meets the modal
  flag of the reading before first; the signal is off at the start. If no readings blink, they are the changes of the
  signals of the readings. -/
theorem events_along_readings (platform : Platform σ π) (config : EngineConfig) (turns : List (Request × Traced σ)) :
    (∀ before call rest, calls platform { config } turns = before ++ call :: rest →
      call.engine.isAttached = true → (call.after platform).isAttached = true →
      ∃ earlier session reading, before = earlier ++ session ∧ IsSession platform session ∧
        call.reading? platform = some reading ∧ (call.after platform).isLoading = reading.isLoading ∧
        call.events platform =
          if ((readings platform session).getLast?.getD (0, 0)).Blinks reading then
            [!reading.isLoading, reading.isLoading]
          else if reading.isLoading = call.engine.isLoading then [] else [reading.isLoading]) ∧
    (∀ before session rest, calls platform { config } turns = before ++ session ++ rest →
      IsSession platform session →
      (readings platform session).length + 1 = session.length ∧
      eventsOf platform session = changesFrom false (signalsAlong 0 (readings platform session)) ∧
      (((0, 0) :: readings platform session).IsChain (fun old new : Reading => ¬ old.Blinks new) →
        eventsOf platform session = changesFrom false ((readings platform session).map Reading.isLoading))) := by
  have hlinked := linked_calls platform { config } turns
  refine ⟨?_, ?_⟩
  · intro before call rest hsplit hattached hafter
    rw [hsplit] at hlinked
    obtain ⟨hbefore, hcall, -⟩ := hlinked.append
    obtain ⟨earlier, first, polls, rfl, hsession⟩ := hbefore.exists_session rfl (hcall ▸ hattached)
    obtain ⟨-, ⟨begun, -, hpresent⟩, -⟩ := hbefore.append.2.holds_session hsession
    have hengine : call.engine.session = some (begun.holding (readings platform (first :: polls)).getLast?) := by
      rw [hcall, afterAll, List.foldl_append]
      exact hpresent
    obtain ⟨loading, modal, hlooks, -, hlast, hevents⟩ :=
      Call.poll_spec hengine (begun.holds_holding _) (platform.readable_true _) True.intro hafter
    have hcurrent : call.engine.isLoading = ((readings platform (first :: polls)).getLast?.getD (0, 0)).isLoading := by
      rw [isLoading, hengine]
      rfl
    refine ⟨earlier, first :: polls, (loading.headD 0, modal.headD 0), rfl, hsession,
      Call.reading?_of_looks hengine hlooks, ?_, ?_⟩
    · rw [isLoading, hlast]
      rfl
    · rw [hevents, hcurrent, ← changesFrom_signals]
      rfl
  · intro before session rest hsplit hsession
    rw [hsplit] at hlinked
    cases session with
    | nil => exact hsession.elim
    | cons first polls =>
      obtain ⟨hlength, -, hevents⟩ := hlinked.append.1.append.2.holds_session hsession
      refine ⟨by rw [hlength, List.length_cons], hevents, fun hchain => hevents.trans ?_⟩
      exact changesFrom_signalsAlong hchain

end Engine

/-! ### Readings that blink -/

namespace InMemory

namespace Visit

/-- One call of the engine later. -/
def called (visit : Visit) : Visit :=
  ⟨(visit.engine.update processes visit.state).1.1, (visit.engine.update processes visit.state).2, visit.alone⟩

/-- The game is loading when the flags are read for the first time. -/
def busy : Visit := (attached {} arrival 0).poked 0 0x1000000 [Flag.busy]

/-- The loading is over, and a modal screen is up. -/
def interrupted : Visit := (busy.called.poked 0 0x1000000 [Flag.ambiguous]).poked 0 0x6622B0 [1]

/-- The engine attaches, then it reads `(1, 0)` and `(2, 1)`. -/
theorem calls_interrupted :
    Engine.calls processes {} [(.update, arrival), (.update, busy.state), (.update, interrupted.state)] =
      [⟨{}, .update, arrival⟩, ⟨busy.engine, .update, busy.state⟩] ++
        [⟨interrupted.engine, .update, interrupted.state⟩] := by
  simp only [Engine.calls, Call.after, Call.answer, interrupted, busy, called, poked, attached]
  rfl

theorem isAttached_interrupted :
    ((Call.mk interrupted.engine .update interrupted.state).after processes).isAttached = true := by
  decide +kernel

end Visit

open Visit in
/-- A poll may give events although the signal is what it was: here the loading flag becomes ambiguous, and a modal
screen is up since the poll before. -/
theorem blink_of_ambiguous_flag :
    ¬ ∀ (config : EngineConfig) (turns : List (Request × Traced (Faulty World))) before call rest reading,
      Engine.calls processes { config } turns = before ++ call :: rest → call.engine.isAttached = true →
      (call.after processes).isAttached = true → call.reading? processes = some reading →
      call.events processes = if reading.isLoading = call.engine.isLoading then [] else [reading.isLoading] := by
  intro h
  have hattached : (Call.mk interrupted.engine .update interrupted.state).engine.isAttached = true := by decide +kernel
  have hreading : (Call.mk interrupted.engine .update interrupted.state).reading? processes = some (2, 1) := by
    decide +kernel
  have hevents : (Call.mk interrupted.engine .update interrupted.state).events processes = [false, true] := by
    decide +kernel
  have hone : ∀ (same : Prop) [Decidable same] (event : Bool), [false, true] ≠ if same then [] else [event] := by
    intro same _ event
    split <;> simp
  exact hone _ _ (hevents.symm.trans (h {} _ _ _ _ _ calls_interrupted hattached isAttached_interrupted hreading))

end InMemory

end LoadRemover
