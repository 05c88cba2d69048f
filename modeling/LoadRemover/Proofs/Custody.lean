import LoadRemover.Proofs.Finding
import LoadRemover.Proofs.Patching

/-!
# Who holds a process open

An engine opens processes one at a time, and there always is one part of it that has to close the open one: a probe
until the process is accepted, an attempt to attach until it has succeeded, and the session from then on.

A platform has `Platform.Custody` if `free` is true of worlds in which no process is open and `held process` of those
in which this one is. Then an engine that is called in a world where exactly the process of its session is open leaves
such a world (`Custody.ensures_answer`). Which worlds these are is left to the platform, so each kind of handle needs
a proof for the single operations only.
-/

namespace LoadRemover

variable {σ π : Type}

/-- The world while the given process is open, or none is. -/
def Holding (free : σ → Prop) (held : π → σ → Prop) : Option π → σ → Prop
  | none => free
  | some process => held process

/-- Opening a process leads from `free` to `held` and closing it leads back. A failure to open one leaves `free`, and
questions about the process that is open keep it open. -/
structure Platform.Custody (platform : Platform σ π) (free : σ → Prop) (held : π → σ → Prop) : Prop where
  processes : Attempt.Ensures free platform.processes (fun _ => free) free
  openProcess : ∀ info, Attempt.Ensures free (platform.openProcess info) held free
  close : ∀ process, Action.Ensures (held process) (platform.close process) fun _ => free
  looks : ∀ process, platform.Looks process (held process)

/-- The process of the candidate is opened in this state, as the one that was listed, and a probe accepts it. -/
structure Platform.Admits (platform : Platform σ π) (info : ProcessInfo) (candidate : Candidate π) (s : Traced σ) :
    Prop where
  opened : ((platform.openProcess info).outcome s).1 = .ok candidate.process
  accepted : ((platform.probe candidate.process).outcome ((platform.openProcess info).outcome s).2).1 =
    .ok (some candidate)

/-- Wherever looking is quiet it does not matter which process is open. -/
theorem Platform.Quiet.custody {platform : Platform σ π} {sight : Sight π} {now gone : σ → Prop}
    (h : platform.Quiet sight now gone) (hgone : ∀ w, gone w → now w) : platform.Custody now fun _ => now where
  processes := h.processes.failed_mono hgone
  openProcess info := (h.openProcess info).failed_mono hgone
  close := h.close
  looks := h.looks hgone

namespace Platform.Custody

variable {platform : Platform σ π} {free : σ → Prop} {held : π → σ → Prop} (h : platform.Custody free held)
include h

/-! ### Finding -/

/-- A process that was looked at stays open exactly if it was accepted. -/
private theorem ensures_probe (process : π) : Attempt.Ensures (held process) (platform.probe process)
    (fun found w => (∀ candidate ∈ found, candidate.process = process) ∧ Holding free held (found.map (·.process)) w)
    free := by
  refine Action.Ensures.bind (h.looks process).ensures_examine fun result => ?_
  match result with
  | .ok (some candidate) =>
    refine Action.Ensures.bind (Action.Ensures.pure fun _ hw => hw) fun _ => Action.Ensures.pure fun w hw => ?_
    obtain rfl : candidate.process = process := hw.1 candidate rfl
    exact hw
  | .ok none =>
    exact Action.Ensures.bind ((h.close process).mono (fun _ hw => hw.2) fun _ _ hw => hw) fun _ =>
      Action.Ensures.pure fun _ hw => ⟨nofun, hw⟩
  | .error failure => exact Action.Ensures.bind (h.close process) fun _ => Action.Ensures.pure fun _ hw => hw

private theorem ensures_openAndProbe (info : ProcessInfo) : Action.Ensures free (platform.openAndProbe info)
    fun found => Holding free held (found.map (·.process)) := by
  have hprobe := fun process => (h.ensures_probe process).post_mono fun _ _ hw => hw.2
  refine Action.Ensures.bind (Attempt.Ensures.bind (h.openProcess info) hprobe) fun result => ?_
  cases result with
  | ok found => exact Action.Ensures.pure fun _ hw => hw
  | error failure => exact Action.Ensures.bind Action.Ensures.report fun _ => Action.Ensures.pure fun _ hw => hw

/-- The processes that were passed over are closed before the next one is opened. -/
private theorem ensures_firstCandidate (infos : List ProcessInfo) : Action.Ensures free (platform.firstCandidate infos)
    fun found => Holding free held (found.map (·.process)) := by
  induction infos with
  | nil => exact Action.Ensures.pure fun _ hw => hw
  | cons info rest ih =>
    refine Action.Ensures.bind (h.ensures_openAndProbe info) fun found => ?_
    cases found with
    | none => exact ih
    | some candidate => exact Action.Ensures.pure fun _ hw => hw

private theorem ensures_findTarget (name : String) : Action.Ensures free (platform.findTarget name)
    fun found => Holding free held (found.map (·.process)) := by
  refine Action.Ensures.bind h.processes fun result => ?_
  cases result with
  | ok infos => exact h.ensures_firstCandidate _
  | error failure => exact Action.Ensures.bind Action.Ensures.report fun _ => Action.Ensures.pure fun _ hw => hw

/-! ### What was found -/

theorem admits_of_openAndProbe {info : ProcessInfo} {candidate : Candidate π} {s : Traced σ} (hs : free s.world)
    (hfound : (platform.openAndProbe info s).1 = some candidate) : platform.Admits info candidate s := by
  unfold openAndProbe at hfound
  rw [Action.bind_apply, Attempt.outcome_bind, Action.bind_apply] at hfound
  have hopen := h.openProcess info s hs
  cases hopened : ((platform.openProcess info).outcome s).1 with
  | error failure =>
    rw [hopened] at hfound
    cases hfound
  | ok process =>
    rw [hopened] at hopen hfound
    have hprobe := h.ensures_probe process _ hopen
    cases haccepted : ((platform.probe process).outcome ((platform.openProcess info).outcome s).2).1 with
    | error failure =>
      rw [haccepted] at hfound
      cases hfound
    | ok found =>
      rw [haccepted] at hprobe hfound
      obtain rfl : found = some candidate := hfound
      obtain rfl := hprobe.1 candidate rfl
      exact ⟨hopened, haccepted⟩

private theorem admits_of_firstCandidate {infos : List ProcessInfo} {candidate : Candidate π} {s : Traced σ}
    (hs : free s.world) (hfound : (platform.firstCandidate infos s).1 = some candidate) :
    ∃ info ∈ infos, ∃ before, free before.world ∧ platform.Admits info candidate before := by
  induction infos generalizing s with
  | nil => cases hfound
  | cons info rest ih =>
    unfold firstCandidate at hfound
    rw [Action.bind_apply] at hfound
    have hopen := h.ensures_openAndProbe info s hs
    cases hfirst : (platform.openAndProbe info s).1 with
    | some first =>
      rw [hfirst] at hfound
      obtain rfl := Option.some.inj hfound
      exact ⟨info, List.mem_cons_self .., s, hs, h.admits_of_openAndProbe hs hfirst⟩
    | none =>
      rw [hfirst] at hopen hfound
      obtain ⟨info', hinfo', hadmits⟩ := ih hopen hfound
      exact ⟨info', List.mem_cons_of_mem _ hinfo', hadmits⟩

/-- What is found was listed under a fitting name. -/
theorem admits_of_findTarget {name : String} {candidate : Candidate π} {s : Traced σ} (hs : free s.world)
    (hfound : (platform.findTarget name s).1 = some candidate) :
    ∃ infos, (platform.processes.outcome s).1 = .ok infos ∧ ∃ info ∈ infos, info.nameContains name = true ∧
      ∃ before, free before.world ∧ platform.Admits info candidate before := by
  unfold findTarget at hfound
  rw [Action.bind_apply] at hfound
  have hlisting := h.processes s hs
  cases hlisted : (platform.processes.outcome s).1 with
  | error failure =>
    rw [hlisted] at hfound
    cases hfound
  | ok infos =>
    rw [hlisted] at hlisting hfound
    obtain ⟨info, hinfo, hadmits⟩ := h.admits_of_firstCandidate hlisting hfound
    obtain ⟨hmem, hname⟩ := List.mem_filter.1 hinfo
    exact ⟨infos, rfl, info, hmem, hname, hadmits⟩

/-! ### Calls of an engine -/

section Calls

variable (hedits : ∀ process, platform.Edits process (held process))
include hedits

private theorem ensures_tryAttach {engine : Engine π} (hdetached : engine.session = none) :
    Action.Ensures free (engine.tryAttach platform)
      fun engine' => Holding free held (engine'.session.map (·.process)) := by
  have hstays : Holding free held (engine.session.map (·.process)) = free := by rw [hdetached]; rfl
  have hfind : Action.Ensures free (platform.findTarget engine.config.processName) fun candidate? w =>
      (candidate? = none → Holding free held (engine.session.map (·.process)) w) ∧
        ∀ candidate ∈ candidate?, held candidate.process w := by
    refine (h.ensures_findTarget engine.config.processName).post_mono fun candidate? w hw => ⟨?_, ?_⟩
    · rintro rfl
      rw [hstays]
      exact hw
    · rintro candidate rfl
      exact hw
  refine Engine.ensures_tryAttach hfind fun candidate => ?_
  refine ((hedits candidate.process).ensures_attach (h.close candidate.process)).ends_mono ?_ ?_
  · rintro session w ⟨⟨base, rfl⟩, hw⟩
    exact hw
  · intro w hw
    rw [hstays]
    exact hw

/-- An update keeps the process of a session open for as long as the engine stays attached. -/
private theorem ensures_update (engine : Engine π) :
    Action.Ensures (Holding free held (engine.session.map (·.process))) (engine.update platform)
      fun result => Holding free held (result.1.session.map (·.process)) := by
  unfold Engine.update
  cases hsession : engine.session with
  | none => exact Action.Ensures.bind (h.ensures_tryAttach hedits hsession) fun _ => Action.Ensures.pure fun _ hw => hw
  | some session =>
    refine Action.Ensures.bind (h.looks session.process).ensures_poll fun poll => Action.Ensures.of_imp fun hsame => ?_
    cases poll.failure with
    | none =>
      refine Action.Ensures.pure fun w hw => ?_
      rw [← hsame.process] at hw
      exact hw
    | some failure =>
      exact Action.Ensures.bind Action.Ensures.report fun _ =>
        Action.Ensures.bind (h.close session.process) fun _ => Action.Ensures.pure fun _ hw => hw

private theorem ensures_shutdown (engine : Engine π) :
    Action.Ensures (Holding free held (engine.session.map (·.process))) (engine.shutdown platform)
      fun result => Holding free held (result.1.session.map (·.process)) := by
  unfold Engine.shutdown
  cases hsession : engine.session with
  | none =>
    refine Action.Ensures.pure fun w hw => ?_
    rw [hsession]
    exact hw
  | some session =>
    exact Action.Ensures.bind ((hedits session.process).ensures_restore (h.looks session.process).hasExited
      (h.close session.process)) fun _ => Action.Ensures.pure fun _ hw => hw

/-- A call that finds exactly the process of the session open leaves exactly the process of its session open. -/
theorem ensures_answer (call : Call σ π)
    (hopen : Holding free held (call.engine.session.map (·.process)) call.state.world) :
    Holding free held ((call.after platform).session.map (·.process)) (call.answer platform).2.world := by
  obtain ⟨engine, request, state⟩ := call
  cases request with
  | update => exact h.ensures_update hedits engine state hopen
  | shutdown => exact h.ensures_shutdown hedits engine state hopen

end Calls

end Platform.Custody

end LoadRemover
