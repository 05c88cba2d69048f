import LoadRemover.Proofs.Custody
import LoadRemover.Windows.Platform
import LoadRemover.Windows.Simulation

/-!
# The handles that are open

`Api.logged` writes down what happens to handles and to blocks of memory, for any implementation of the Windows
functions. A function that opens may give a number again once it was closed, so what is assumed of an implementation
is only that the handles it gives are not open at that time (`Fresh`). Then, whichever calls fail:

* a handle is used and closed only while it is open (`Orderly`), so each opening is followed by one closing before the
  same number is given again (`toggles_switches`);
* between two calls of an engine the handle of its session is open and no other;
* a block above the 32-bit range is released at once (`Settled`).

The invariant is `Accounted`: which handles are open after the log. It is `Platform.Custody` of the engine's process.
-/

namespace LoadRemover.Windows

variable {σ α : Type}

/-! ### The log -/

/-- What happens to a handle, or to memory through a handle. -/
inductive HandleEvent where
  | opened (handle : Handle)
  | closed (handle : Handle)
  | used (handle : Handle)
  | allocated (process : Handle) (block : UInt64)
  | released (process : Handle) (block : UInt64) (success : Bool)
deriving DecidableEq

namespace HandleEvent

def opened? : HandleEvent → Option Handle
  | opened handle => some handle
  | _ => none

/-- The handle that is passed to the system. -/
def passed? : HandleEvent → Option Handle
  | opened _ => none
  | closed handle | used handle | allocated handle _ | released handle _ _ => some handle

/-- Whether the event opens or closes the handle, if it does one of both. -/
def switch? (handle : Handle) : HandleEvent → Option Bool
  | opened handle' => if handle' = handle then some true else none
  | closed handle' => if handle' = handle then some false else none
  | _ => none

end HandleEvent

/-- The open handles after an event. -/
def openNext (before : List Handle) : HandleEvent → List Handle
  | .opened handle => handle :: before
  | .closed handle => before.erase handle
  | _ => before

/-- The open handles after a log, the last one opened first. -/
def openAfter (before : List Handle) (log : List HandleEvent) : List Handle := log.foldl openNext before

/-- Each event of the log is as it should be for the handles that are open at that time. -/
inductive Throughout (ok : List Handle → HandleEvent → Prop) : List Handle → List HandleEvent → Prop
  | nil {before : List Handle} : Throughout ok before []
  | cons {before : List Handle} {event : HandleEvent} {rest : List HandleEvent} :
    ok before event → Throughout ok (openNext before event) rest → Throughout ok before (event :: rest)

/-- No handle is given that is open. -/
def FreshFrom : List Handle → List HandleEvent → Prop :=
  Throughout fun before event => ∀ handle ∈ event.opened?, handle ∉ before

/-- Handles are passed only while they are open. -/
def OrderlyFrom : List Handle → List HandleEvent → Prop :=
  Throughout fun before event => ∀ handle ∈ event.passed?, handle ∈ before

abbrev Fresh : List HandleEvent → Prop := FreshFrom []

abbrev Orderly : List HandleEvent → Prop := OrderlyFrom []

/-- What follows an allocation above the 32-bit range is the release of the block. -/
def Settled : List HandleEvent → Prop
  | [] => True
  | event :: rest =>
    (∀ process block, event = .allocated process block → 2 ^ 32 ≤ block.toNat →
      ∃ success, rest.head? = some (.released process block success)) ∧ Settled rest

namespace Throughout

variable {ok : List Handle → HandleEvent → Prop} {before : List Handle} {event : HandleEvent}
  {log events rest : List HandleEvent}

private theorem cons_iff :
    Throughout ok before (event :: rest) ↔ ok before event ∧ Throughout ok (openNext before event) rest :=
  ⟨fun | .cons h h' => ⟨h, h'⟩, fun h => .cons h.1 h.2⟩

private theorem singleton (h : ok before event) : Throughout ok before [event] := .cons h .nil

instance decidable [∀ before event, Decidable (ok before event)] : ∀ before log, Decidable (Throughout ok before log)
  | _, [] => .isTrue .nil
  | before, event :: rest =>
    have := decidable (openNext before event) rest
    decidable_of_iff _ cons_iff.symm

private theorem append :
    Throughout ok before (log ++ events) ↔ Throughout ok before log ∧ Throughout ok (openAfter before log) events := by
  induction log generalizing before with
  | nil => exact ⟨fun h => ⟨.nil, h⟩, And.right⟩
  | cons event rest ih =>
    rw [List.cons_append, cons_iff, cons_iff, ih, and_assoc]
    rfl

end Throughout

instance (before : List Handle) (log : List HandleEvent) : Decidable (FreshFrom before log) :=
  inferInstanceAs (Decidable (Throughout _ _ _))

private theorem Settled.append {log events : List HandleEvent} (h : Settled log) (h' : Settled events) :
    Settled (log ++ events) := by
  induction log with
  | nil => exact h'
  | cons event rest ih =>
    refine ⟨fun process block hevent hblock => ?_, ih h.2⟩
    obtain ⟨success, hnext⟩ := h.1 process block hevent hblock
    obtain ⟨rest, rfl⟩ := List.head?_eq_some_iff.1 hnext
    exact ⟨success, rfl⟩

/-- Openings and closings of a handle take turns. -/
private theorem toggles_switches (handle : Handle) {before : List Handle} {log : List HandleEvent}
    (hnodup : before.Nodup) (hfresh : FreshFrom before log) (horderly : OrderlyFrom before log) :
    Toggles (decide (handle ∈ before)) (log.filterMap (·.switch? handle)) (decide (handle ∈ openAfter before log)) := by
  induction log generalizing before with
  | nil => rfl
  | cons event rest ih =>
    obtain ⟨hfirst, hfresh⟩ := Throughout.cons_iff.1 hfresh
    obtain ⟨hpassed, horderly⟩ := Throughout.cons_iff.1 horderly
    cases event with
    | opened handle' =>
      have hclosed : handle' ∉ before := hfirst handle' rfl
      have hrest := ih (List.nodup_cons.2 ⟨hclosed, hnodup⟩) hfresh horderly
      by_cases hsame : handle' = handle
      · subst hsame
        simp only [List.mem_cons_self, decide_true] at hrest
        simp only [List.filterMap_cons, HandleEvent.switch?, ↓reduceIte, hclosed, decide_false]
        exact ⟨rfl, hrest⟩
      · simp only [List.mem_cons, Ne.symm hsame, false_or] at hrest
        simp only [List.filterMap_cons, HandleEvent.switch?, hsame, ↓reduceIte]
        exact hrest
    | closed handle' =>
      have hopen : handle' ∈ before := hpassed handle' rfl
      have hrest := ih (hnodup.erase handle') hfresh horderly
      by_cases hsame : handle' = handle
      · subst hsame
        simp only [hnodup.mem_erase_iff, ne_eq, not_true, false_and, decide_false] at hrest
        simp only [List.filterMap_cons, HandleEvent.switch?, ↓reduceIte, hopen, decide_true]
        exact ⟨rfl, hrest⟩
      · simp only [hnodup.mem_erase_iff, ne_eq, Ne.symm hsame, not_false_eq_true, true_and] at hrest
        simp only [List.filterMap_cons, HandleEvent.switch?, hsame, ↓reduceIte]
        exact hrest
    | used | allocated | released => exact ih hnodup hfresh horderly

/-- If the handles that were given were fresh, then these are the ones that are open, and everything before was in
order. -/
def Accounted (now : List Handle) (log : List HandleEvent) : Prop :=
  Fresh log → Orderly log ∧ openAfter [] log = now ∧ Settled log

private theorem accounted_nil : Accounted [] [] := fun _ => ⟨.nil, rfl, True.intro⟩

private theorem Accounted.append {now next : List Handle} {log events : List HandleEvent} (h : Accounted now log)
    (hevents : FreshFrom now events → OrderlyFrom now events ∧ openAfter now events = next ∧ Settled events) :
    Accounted next (log ++ events) := by
  intro hfresh
  have hsplit := Throughout.append.1 hfresh
  obtain ⟨horderly, rfl, hsettled⟩ := h hsplit.1
  obtain ⟨horderly', hnext, hsettled'⟩ := hevents hsplit.2
  refine ⟨Throughout.append.2 ⟨horderly, horderly'⟩, ?_, hsettled.append hsettled'⟩
  rw [openAfter, List.foldl_append]
  exact hnext

section Accounting

variable {now : List Handle} {log : List HandleEvent} {handle : Handle}

private theorem Accounted.opened (h : Accounted now log) (handle : Handle) :
    Accounted (handle :: now) (log ++ [.opened handle]) :=
  h.append fun _ => ⟨.singleton nofun, rfl, ⟨nofun, True.intro⟩⟩

private theorem Accounted.closed (h : Accounted now log) (hopen : handle ∈ now) :
    Accounted (now.erase handle) (log ++ [.closed handle]) :=
  h.append fun _ => ⟨.singleton fun _ heq => Option.some.inj heq ▸ hopen, rfl, ⟨nofun, True.intro⟩⟩

private theorem Accounted.used (h : Accounted now log) (hopen : handle ∈ now) : Accounted now (log ++ [.used handle]) :=
  h.append fun _ => ⟨.singleton fun _ heq => Option.some.inj heq ▸ hopen, rfl, ⟨nofun, True.intro⟩⟩

private theorem Accounted.released (h : Accounted now log) (hopen : handle ∈ now) (block : UInt64) (success : Bool) :
    Accounted now (log ++ [.released handle block success]) :=
  h.append fun _ => ⟨.singleton fun _ heq => Option.some.inj heq ▸ hopen, rfl, ⟨nofun, True.intro⟩⟩

private theorem Accounted.allocated (h : Accounted now log) (hopen : handle ∈ now) {block : UInt64}
    (hblock : block.toNat < 2 ^ 32) : Accounted now (log ++ [.allocated handle block]) := by
  refine h.append fun _ => ⟨.singleton fun _ heq => Option.some.inj heq ▸ hopen, rfl, ?_, True.intro⟩
  intro process block' heq hhigh
  obtain ⟨-, rfl⟩ := HandleEvent.allocated.inj heq
  exact absurd hblock (Nat.not_lt.2 hhigh)

/-- A block that was released at once needs nothing more, wherever it is. -/
private theorem Accounted.givenBack (h : Accounted now log) (hopen : handle ∈ now) (block : UInt64) (success : Bool) :
    Accounted now (log ++ [.allocated handle block, .released handle block success]) := by
  refine h.append fun _ => ⟨?_, rfl, ?_, nofun, True.intro⟩
  · exact .cons (fun _ heq => Option.some.inj heq ▸ hopen) (.singleton fun _ heq => Option.some.inj heq ▸ hopen)
  · intro process block' heq _
    obtain ⟨rfl, rfl⟩ := HandleEvent.allocated.inj heq
    exact ⟨success, rfl⟩

end Accounting

/-! ### The functions with a log -/

/-- The world and what happened to handles so far. -/
structure Logged (σ : Type) where
  world : σ
  log : List HandleEvent := []

/-- Make the call and write down what it did, which may depend on its outcome. -/
def noting (events : Except String α → List HandleEvent) (f : Call σ α) : Call (Logged σ) α :=
  ExceptT.mk fun s =>
    let (result, world) := f.run s.world
    (result, ⟨world, s.log ++ events result⟩)

private theorem run_noting (events : Except String α → List HandleEvent) (f : Call σ α) (s : Logged σ) :
    (noting events f).run s =
      ((f.run s.world).1, ⟨(f.run s.world).2, s.log ++ events (f.run s.world).1⟩) := rfl

def noteOpened : Except String Handle → List HandleEvent
  | .ok handle => [.opened handle]
  | .error _ => []

/-- The same functions, with everything written down that happens to handles and blocks. -/
def Api.logged (api : Api σ) : Api (Logged σ) where
  createSnapshot flags pid := noting noteOpened (api.createSnapshot flags pid)
  firstProcess snapshot entry := noting (fun _ => [.used snapshot]) (api.firstProcess snapshot entry)
  nextProcess snapshot entry := noting (fun _ => [.used snapshot]) (api.nextProcess snapshot entry)
  firstModule snapshot := noting (fun _ => [.used snapshot]) (api.firstModule snapshot)
  openProcess access inherit pid := noting noteOpened (api.openProcess access inherit pid)
  closeHandle handle := noting (fun _ => [.closed handle]) (api.closeHandle handle)
  exitCode process := noting (fun _ => [.used process]) (api.exitCode process)
  isWow64 process := noting (fun _ => [.used process]) (api.isWow64 process)
  readMemory process address size := noting (fun _ => [.used process]) (api.readMemory process address size)
  writeMemory process address bytes := noting (fun _ => [.used process]) (api.writeMemory process address bytes)
  flushInstructions process address size :=
    noting (fun _ => [.used process]) (api.flushInstructions process address size)
  protect process address size protection :=
    noting (fun _ => [.used process]) (api.protect process address size protection)
  allocate process size kind protection := fun s =>
    let (block, world) := api.allocate process size kind protection s.world
    (block, ⟨world, s.log ++ if block = 0 then [.used process] else [.allocated process block]⟩)
  lastError s := api.lastError s.world
  free process address size kind :=
    noting (fun result => [.released process address result.isOk]) (api.free process address size kind)

/-- The state of a platform, seen as the condition on its log. -/
abbrev Kept (now : List Handle) (s : Logged σ) : Prop := Accounted now s.log

section Calls

variable {now : List Handle} {handle : Handle} {f : Call σ α}

private theorem ensures_callOr {f : Call σ α} {pre failed : σ → Prop} {post : α → σ → Prop} (failure : String → Failure)
    (h : Action.Ensures pre (call f) fun
      | .ok a => post a
      | .error _ => failed) : Attempt.Ensures pre (callOr f failure) post failed := by
  refine Action.Ensures.bind h fun result => ?_
  cases result <;> exact Action.Ensures.pure fun _ hs => hs

private theorem ensures_used (hopen : handle ∈ now) :
    Action.Ensures (Kept now) (call (noting (fun _ => [.used handle]) f)) fun _ => Kept now :=
  Action.Ensures.onWorld fun _ hs => Accounted.used hs hopen

private theorem ensures_usedOr (hopen : handle ∈ now) (failure : String → Failure) :
    Attempt.Ensures (Kept now) (callOr (noting (fun _ => [.used handle]) f) failure) (fun _ => Kept now)
      (Kept now) := by
  refine ensures_callOr failure ((ensures_used hopen).post_mono fun result _ hs => ?_)
  cases result <;> exact hs

private theorem ensures_opened {f : Call σ Handle} (failure : String → Failure) :
    Attempt.Ensures (Kept now) (callOr (noting noteOpened f) failure) (fun handle => Kept (handle :: now))
      (Kept now) := by
  refine ensures_callOr failure (Action.Ensures.onWorld fun s hs => ?_)
  rw [run_noting]
  cases (f.run s.world).1 with
  | ok handle => exact Accounted.opened hs handle
  | error reason =>
    dsimp only
    rw [Kept, noteOpened, List.append_nil]
    exact hs

private theorem ensures_closed {f : Call σ Unit} (hopen : handle ∈ now) :
    Action.Ensures (Kept now) (callAnyway (noting (fun _ => [.closed handle]) f)) fun _ => Kept (now.erase handle) := by
  have hclosed : Action.Ensures (Kept now) (call (noting (fun _ => [.closed handle]) f))
      fun _ => Kept (now.erase handle) := Action.Ensures.onWorld fun _ hs => Accounted.closed hs hopen
  exact Action.Ensures.bind hclosed fun _ => Action.Ensures.pure fun _ hs => hs

end Calls

/-! ### The platform -/

section Operations

variable (api : Api σ) {limit : Nat} {now : List Handle}

private theorem ensures_following {snapshot : Handle} (hopen : snapshot ∈ now) (n : Nat) (entry : ProcessEntry) :
    Action.Ensures (Kept now) (api.logged.following snapshot n entry) fun _ => Kept now := by
  induction n generalizing entry with
  | zero => exact Action.Ensures.pure fun _ hs => hs
  | succ n ih =>
    refine Action.Ensures.bind (ensures_used hopen) fun result => ?_
    cases result with
    | error reason => exact Action.Ensures.pure fun _ hs => hs
    | ok entry => exact Action.Ensures.bind (ih entry) fun _ => Action.Ensures.pure fun _ hs => hs

private theorem ensures_enumerate {snapshot : Handle} (hopen : snapshot ∈ now) :
    Action.Ensures (Kept now) (api.logged.enumerate limit snapshot) fun _ => Kept now := by
  refine Action.Ensures.bind (ensures_used hopen) fun result => ?_
  cases result with
  | error reason => exact Action.Ensures.pure fun _ hs => hs
  | ok entry =>
    exact Action.Ensures.bind (ensures_following api hopen limit entry) fun _ => Action.Ensures.pure fun _ hs => hs

/-- The snapshot of a listing is closed again. -/
private theorem ensures_processes :
    Attempt.Ensures (Kept now) (api.logged.processes limit) (fun _ => Kept now) (Kept now) := by
  refine Attempt.Ensures.bind (ensures_opened .listing) fun snapshot => ?_
  have hopen : snapshot ∈ snapshot :: now := List.mem_cons_self ..
  refine Attempt.Ensures.bind (Attempt.Ensures.lift (ensures_enumerate api hopen)) fun infos => ?_
  refine Attempt.Ensures.bind (Attempt.Ensures.lift (ensures_closed hopen)) fun _ => Attempt.Ensures.pure fun s hs => ?_
  rwa [List.erase_cons_head] at hs

/-- So is the snapshot of the modules, whether it could be read or not. -/
private theorem ensures_moduleBase (process : OpenedProcess) :
    Attempt.Ensures (Kept now) (api.logged.moduleBase process) (fun _ => Kept now) (Kept now) := by
  refine Attempt.Ensures.bind (ensures_opened (.opening process.pid)) fun snapshot => ?_
  have hopen : snapshot ∈ snapshot :: now := List.mem_cons_self ..
  have hfirst : Action.Ensures (Kept (snapshot :: now))
      (callOr (api.logged.firstModule snapshot) (.opening process.pid)).outcome fun _ => Kept (snapshot :: now) := by
    refine Action.Ensures.post_mono (ensures_usedOr hopen (.opening process.pid)) fun result s hs => ?_
    cases result <;> exact hs
  refine Action.Ensures.bind hfirst fun base => Action.Ensures.bind (ensures_closed hopen) fun _ => ?_
  refine Action.Ensures.pure fun s hs => ?_
  rw [List.erase_cons_head] at hs
  cases base.bind toAddress <;> exact hs

section Opened

variable {process : OpenedProcess} (hopen : process.handle ∈ now)
include hopen

private theorem ensures_read (address : UInt32) (n : Nat) :
    Attempt.Ensures (Kept now) (api.logged.read process address n) (fun _ => Kept now) (Kept now) := by
  refine Attempt.Ensures.bind (ensures_usedOr hopen (.reading address)) fun bytes => ?_
  split
  · exact Attempt.Ensures.throw_bind fun _ hs => hs
  · exact Attempt.Ensures.pure fun _ hs => hs

private theorem ensures_write (address : UInt32) (bytes : Bytes) :
    Attempt.Ensures (Kept now) (api.logged.write process address bytes) (fun _ => Kept now) (Kept now) := by
  have hused : ∀ {α : Type} (f : Call σ α), Attempt.Ensures (Kept now)
      (ExceptT.lift (call (noting (fun _ => [.used process.handle]) f))) (fun _ => Kept now) (Kept now) :=
    fun f => Attempt.Ensures.lift (ensures_used hopen)
  have hagain : ∀ protection, Attempt.Ensures (Kept now)
      (ExceptT.lift (callAnyway (api.logged.protect process.handle address.toUInt64 bytes.length protection)))
      (fun _ => Kept now) (Kept now) :=
    fun protection => Attempt.Ensures.lift (Action.Ensures.bind (ensures_used hopen) fun _ =>
      Action.Ensures.pure fun _ hs => hs)
  unfold Api.write
  refine Attempt.Ensures.bind (hused _) fun former => Attempt.Ensures.bind (hused _) fun written => ?_
  have hflush : ∀ {next : Except String Unit → Attempt (Logged σ) Unit},
      (∀ reason, next (.error reason) = Attempt.report (.flushFailed address reason)) → (∀ a, next (.ok a) = pure ()) →
      Attempt.Ensures (Kept now)
        (ExceptT.lift (call (api.logged.flushInstructions process.handle address.toUInt64 bytes.length)) >>= next)
        (fun _ => Kept now) (Kept now) := by
    intro next herror hok
    refine Attempt.Ensures.bind (hused _) fun result => ?_
    cases result with
    | error reason =>
      rw [herror]
      exact Attempt.Ensures.report
    | ok a =>
      rw [hok]
      exact Attempt.Ensures.pure fun _ hs => hs
  -- the former protection is set again first, whatever the write has given
  cases former with
  | error reason =>
    cases written with
    | error reason => exact Attempt.Ensures.throw_bind fun _ hs => hs
    | ok n =>
      dsimp only
      split
      · exact Attempt.Ensures.throw_bind fun _ hs => hs
      · exact hflush (fun _ => rfl) fun _ => rfl
  | ok protection =>
    refine Attempt.Ensures.bind (hagain protection) fun _ => ?_
    cases written with
    | error reason => exact Attempt.Ensures.throw_bind fun _ hs => hs
    | ok n =>
      dsimp only
      split
      · exact Attempt.Ensures.throw_bind fun _ hs => hs
      · exact hflush (fun _ => rfl) fun _ => rfl

omit hopen in
/-- The ways in which an allocation can end. A block that lies too high is given back before the failure is told. -/
private theorem allocateBlock_spec (size : Nat) (s : Traced (Logged σ)) :
    let answer := (api.logged.allocateBlock process size).outcome s
    let events := fun events => answer.2.world.log = s.world.log ++ events
    (∃ reason, answer.1 = .error (.allocating size reason) ∧ events [.used process.handle]) ∨
    (∃ block, block.toNat < 2 ^ 32 ∧ answer.1 = .ok block.toUInt32 ∧ events [.allocated process.handle block]) ∨
    ∃ block success, 2 ^ 32 ≤ block.toNat ∧ answer.1 = .error (.addressOutOfRange block) ∧
      events [.allocated process.handle block, .released process.handle block success] := by
  let called := api.allocate process.handle size commitReserve executeReadWrite s.world.world
  have hfirst : Attempt.outcome (ExceptT.lift (Action.onWorld fun world =>
      api.logged.allocate process.handle size commitReserve executeReadWrite world)) s = (.ok called.1, { s with
        world := ⟨called.2, s.world.log ++
          if called.1 = 0 then [.used process.handle] else [.allocated process.handle called.1]⟩ }) := rfl
  unfold Api.allocateBlock
  rw [Attempt.outcome_bind, Action.bind_apply, hfirst]
  generalize called.1 = block
  by_cases hzero : block = 0
  · simp only [if_pos hzero]
    exact .inl ⟨_, rfl, rfl⟩
  · simp only [if_neg hzero]
    by_cases hlow : block.toNat < 2 ^ 32
    · have haddress : toAddress block = .ok block.toUInt32 := if_pos hlow
      rw [haddress]
      exact .inr (.inl ⟨block, hlow, rfl, rfl⟩)
    · have haddress : toAddress block = .error (.addressOutOfRange block) := if_neg hlow
      rw [haddress]
      let freed := (api.free process.handle block 0 releaseMemory).run called.2
      have hfree : Attempt.outcome (ExceptT.lift (call (api.logged.free process.handle block 0 releaseMemory)))
          { s with world := ⟨called.2, s.world.log ++ [.allocated process.handle block]⟩ } = (.ok freed.1, { s with
            world := ⟨freed.2, s.world.log ++ [.allocated process.handle block] ++
              [.released process.handle block freed.1.isOk]⟩ }) := rfl
      refine .inr (.inr ⟨block, freed.1.isOk, Nat.not_lt.1 hlow, ?_⟩)
      dsimp only
      rw [Attempt.outcome_bind, Action.bind_apply, hfree, List.append_assoc]
      cases freed.1 with
      | ok _ => exact ⟨rfl, rfl⟩
      | error reason => exact ⟨rfl, rfl⟩

private theorem ensures_allocate (size : Nat) :
    Attempt.Ensures (Kept now) (api.logged.allocateBlock process size) (fun _ => Kept now) (Kept now) := by
  intro s hs
  have hkept : Kept now ((api.logged.allocateBlock process size).outcome s).2.world := by
    unfold Kept
    rcases allocateBlock_spec api size s with
      ⟨reason, -, hlog⟩ | ⟨block, hlow, -, hlog⟩ | ⟨block, success, -, -, hlog⟩
    · exact hlog ▸ hs.used hopen
    · exact hlog ▸ hs.allocated hopen hlow
    · exact hlog ▸ hs.givenBack hopen block success
  cases ((api.logged.allocateBlock process size).outcome s).1 <;> exact hkept

private theorem ensures_free (address : UInt32) :
    Attempt.Ensures (Kept now) ((platform api.logged limit).free process address) (fun _ => Kept now) (Kept now) := by
  have hreleased : Action.Ensures (Kept now) (call (api.logged.free process.handle address.toUInt64 0 releaseMemory))
      fun _ => Kept now := Action.Ensures.onWorld fun _ hs => Accounted.released hs hopen _ _
  refine ensures_callOr (.freeing address) (hreleased.post_mono fun result _ hs => ?_)
  cases result <;> exact hs

private theorem looks_logged : (platform api.logged limit).Looks process (Kept now) where
  hasExited := by
    refine Action.Ensures.bind (ensures_used hopen) fun result => ?_
    cases result <;> exact Action.Ensures.pure fun _ hs => hs
  is64Bit := Attempt.Ensures.bind (ensures_usedOr hopen _) fun _ => Attempt.Ensures.pure fun _ hs => hs
  moduleBase := ensures_moduleBase api process
  read := ensures_read api hopen

private theorem edits_logged : (platform api.logged limit).Edits process (Kept now) where
  write := ensures_write api hopen
  allocate := ensures_allocate api hopen
  free := ensures_free api hopen

end Opened

/-- The one open handle is that of the process which the engine deals with. -/
private theorem custody_logged :
    (platform api.logged limit).Custody (Kept []) fun process => Kept [process.handle] where
  processes := ensures_processes api
  openProcess info := Attempt.Ensures.bind (ensures_opened (.opening info.pid)) fun _ =>
    Attempt.Ensures.pure fun _ hs => hs
  close process := by
    refine (ensures_closed (List.mem_singleton_self process.handle)).post_mono fun _ s hs => ?_
    rwa [List.erase_cons_head] at hs
  looks process := looks_logged api (List.mem_singleton_self process.handle)

end Operations

/-! ### Runs -/

/-- An engine, and what has happened to handles since it was made. -/
structure Tenure where
  engine : Engine OpenedProcess
  log : List HandleEvent := []

/-- A call of the engine, which may find everything but the log in any state. -/
def Tenure.turn (api : Api σ) (limit : Nat) (tenure : Tenure) (turn : Request × Traced σ) : Tenure :=
  let call : LoadRemover.Call (Logged σ) OpenedProcess :=
    ⟨tenure.engine, turn.1, { turn.2 with world := ⟨turn.2.world, tenure.log⟩ }⟩
  ⟨call.after (platform api.logged limit), (call.answer (platform api.logged limit)).2.world.log⟩

def Tenure.run (api : Api σ) (limit : Nat) (config : EngineConfig) (turns : List (Request × Traced σ)) : Tenure :=
  turns.foldl (turn api limit) ⟨{ config }, []⟩

/-- The handle that the engine keeps between calls. -/
def Tenure.kept (tenure : Tenure) : List Handle := (tenure.engine.session.map (·.process.handle)).toList

private theorem Tenure.accounted_turn (api : Api σ) (limit : Nat) {tenure : Tenure}
    (h : Accounted tenure.kept tenure.log)
    (turn : Request × Traced σ) : Accounted (tenure.turn api limit turn).kept (tenure.turn api limit turn).log := by
  have hkept : ∀ (tenure : Tenure) (s : Logged σ), s.log = tenure.log →
      (Holding (Kept []) (fun process => Kept [process.handle]) (tenure.engine.session.map (·.process)) s ↔
        Accounted tenure.kept tenure.log) := by
    rintro ⟨engine, log⟩ s rfl
    unfold kept
    cases engine.session <;> exact Iff.rfl
  refine (hkept (tenure.turn api limit turn) _ rfl).1 ?_
  refine (custody_logged api).ensures_answer
    (fun process => edits_logged api (List.mem_singleton_self process.handle)) _ ?_
  exact (hkept tenure _ rfl).2 h

private theorem Tenure.accounted_run (api : Api σ) (limit : Nat) (config : EngineConfig)
    (turns : List (Request × Traced σ)) :
    Accounted (run api limit config turns).kept (run api limit config turns).log := by
  have hall : ∀ (turns : List (Request × Traced σ)) (tenure : Tenure), Accounted tenure.kept tenure.log →
      Accounted (turns.foldl (turn api limit) tenure).kept (turns.foldl (turn api limit) tenure).log := by
    intro turns
    induction turns with
    | nil => exact fun _ h => h
    | cons turn rest ih => exact fun tenure h => ih _ (accounted_turn api limit h turn)
  exact hall turns _ accounted_nil

/-- No handle is lost, whatever the calls to Windows give, if the handles that are opened are fresh ones.

* A handle is used or closed only while it is open, and it was opened by the engine.
* After each call the open handles are those that the engine keeps: that of its session's process, if there is one.
* So a handle that was opened is closed once before it can be opened again, and all but the kept one are closed.
* A block above the 32-bit range is released as soon as it was allocated, before the allocation is said to have failed
  for its address. -/
theorem no_handle_is_lost (api : Api σ) (limit : Nat) (config : EngineConfig) (turns : List (Request × Traced σ))
    (hfresh : Fresh (Tenure.run api limit config turns).log) :
    let tenure := Tenure.run api limit config turns
    Orderly tenure.log ∧
    openAfter [] tenure.log = tenure.kept ∧
    (∀ handle, Toggles false (tenure.log.filterMap (·.switch? handle)) (decide (handle ∈ tenure.kept))) ∧
    Settled tenure.log ∧
    ∀ process size block s, ((api.logged.allocateBlock process size).outcome s).1 = .error (.addressOutOfRange block) →
      ∃ success, ((api.logged.allocateBlock process size).outcome s).2.world.log =
        s.world.log ++ [.allocated process.handle block, .released process.handle block success] := by
  obtain ⟨horderly, hopen, hsettled⟩ := Tenure.accounted_run api limit config turns hfresh
  refine ⟨horderly, hopen, fun handle => ?_, hsettled, fun process size block s hfailed => ?_⟩
  · have htoggles := toggles_switches handle List.nodup_nil hfresh horderly
    rw [hopen] at htoggles
    exact htoggles
  · rcases allocateBlock_spec api size s with
      ⟨reason, hresult, -⟩ | ⟨block', -, hresult, -⟩ | ⟨block', success, -, hresult, hlog⟩
    · exact nomatch hfailed.symm.trans hresult
    · exact nomatch hfailed.symm.trans hresult
    · obtain rfl : block = block' := Failure.addressOutOfRange.inj (Except.error.inj (hfailed.symm.trans hresult))
      exact ⟨success, hlog⟩

/-! #### One run -/

/-- A machine with a process that only bears the name of the game, and one of the retail build after it. -/
def twoGames : Simulation.Machine where
  processes := [
    { pid := 5, name := textUnits, isWow64 := false },
    { pid := 7, name := textUnits, moduleBase := 0x400000
      mappings := (Build.retail.imageParts 0x400000).map fun part =>
        { toRegion := .ofBytes (0x400000 + part.1).toNat part.2, protection := 0x20 } }]
where
  textUnits := "mc2.exe".toList.map fun c => UInt16.ofNat c.toNat

/-- The engine attaches to the second process after it has passed over the first. -/
def attachedToSecond : Tenure := Tenure.run Simulation.api 2 {} [(.update, ⟨twoGames, []⟩)]

theorem second_handle_is_kept : Fresh attachedToSecond.log ∧ attachedToSecond.kept = [⟨12⟩] ∧
    openAfter [] attachedToSecond.log = [⟨12⟩] ∧
    attachedToSecond.log.filterMap (·.switch? ⟨8⟩) = [true, false] ∧ Orderly attachedToSecond.log := by
  have hfresh : Fresh attachedToSecond.log := by decide +kernel
  have hkept : attachedToSecond.kept = [⟨12⟩] := by decide +kernel
  obtain ⟨horderly, hopen, htoggles, -, -⟩ := no_handle_is_lost Simulation.api 2 {} [(.update, ⟨twoGames, []⟩)] hfresh
  exact ⟨hfresh, hkept, hopen.trans hkept, by decide +kernel, horderly⟩

end LoadRemover.Windows
