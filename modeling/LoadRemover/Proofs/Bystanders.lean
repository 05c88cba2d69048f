import LoadRemover.Proofs.Examining
import LoadRemover.Proofs.Pairing
import LoadRemover.Proofs.Patrols
import LoadRemover.Proofs.Scanning
import Mathlib.Data.List.Nodup

/-!
# Bystanders

What comes of a process that is opened and looked at depends on this process and on the failures that wait for it
(`InMemory.Alike.openAndProbe`). It does not matter which others had their turn before (`InMemory.choice_after`), so the
process that is found is the first in the list that qualifies. Processes that do not qualify can be removed, added and
changed, and the same process is found (`InMemory.first_qualifying_is_found`).
-/

namespace LoadRemover

/-! ### Failures of one process -/

namespace Schedule

variable {κ ε : Type} {p : κ → Bool} {key : κ}

/-- The disturbances that wait for calls with these keys. -/
def awaiting (p : κ → Bool) (schedule : Schedule κ ε) : Schedule κ ε := schedule.filter fun d => p d.key

private theorem awaiting_cons (d : Disturbance κ ε) (rest : Schedule κ ε) :
    awaiting p (d :: rest) = if p d.key then d :: awaiting p rest else awaiting p rest := List.filter_cons

variable [DecidableEq κ]

private theorem meet_cons (d : Disturbance κ ε) (rest : Schedule κ ε) (hmet : ¬ (d.key = key ∧ 0 < d.count)) :
    meet key (d :: rest) = ((meet key rest).1, d :: (meet key rest).2) := if_neg hmet

/-- What a call meets are only disturbances that wait for calls with its key. -/
private theorem meet_awaiting (hkey : p key = true) (schedule : Schedule κ ε) :
    meet key (awaiting p schedule) = ((meet key schedule).1, awaiting p (meet key schedule).2) := by
  induction schedule with
  | nil => rfl
  | cons d rest ih =>
    by_cases hmet : d.key = key ∧ 0 < d.count
    · obtain ⟨rfl, hcount⟩ := hmet
      by_cases hskip : 0 < d.skip
      · simp [awaiting_cons, meet, hkey, hcount, hskip]
      · simp [awaiting_cons, meet, hkey, hcount, hskip]
    · rw [meet_cons d rest hmet, awaiting_cons, awaiting_cons]
      by_cases hd : p d.key = true
      · rw [if_pos hd, if_pos hd, meet_cons d _ hmet, ih]
      · rw [if_neg hd, if_neg hd, ih]

/-- Disturbances that wait for calls with other keys are left as they are. -/
private theorem awaiting_meet (hkey : p key = false) (schedule : Schedule κ ε) :
    awaiting p (meet key schedule).2 = awaiting p schedule := by
  induction schedule with
  | nil => rfl
  | cons d rest ih =>
    by_cases hmet : d.key = key ∧ 0 < d.count
    · obtain ⟨rfl, hcount⟩ := hmet
      by_cases hskip : 0 < d.skip
      · simp [awaiting_cons, meet, hkey, hcount, hskip]
      · simp [awaiting_cons, meet, hkey, hcount, hskip]
    · rw [meet_cons d rest hmet, awaiting_cons, awaiting_cons, ih]

end Schedule

namespace InMemory

/-- The failures ahead of the process with this number. -/
def faults (s : Faulty World) (pid : UInt32) : Schedule (UInt32 × Operation) Failure :=
  s.schedule.awaiting fun key => key.1 = pid

private theorem faults_check {pid pid' : UInt32} (h : pid ≠ pid') (operation : Operation) (s : Traced (Faulty World)) :
    faults (Faulty.check pid operation s).2.world pid' = faults s.world pid' := by
  have hkey : decide ((pid, operation).1 = pid') = false := decide_eq_false h
  exact Schedule.awaiting_meet (p := fun key : UInt32 × Operation => decide (key.1 = pid')) hkey s.world.schedule

/-- A number is opened as the first living process that has it. -/
def World.opened (w : World) (info : ProcessInfo) : Except Failure Handle :=
  (w.living.find? fun slot => (w.target slot).info.pid == info.pid).elim
    (.error (.opening info.pid "no such process")) fun slot => .ok (w.handle slot)

private theorem World.opened_eq_ok {w : World} {info : ProcessInfo} {slot : Nat}
    (h : w.living.find? (fun slot => (w.target slot).info.pid == info.pid) = some slot) :
    w.opened info = .ok ⟨slot, info.pid⟩ := by
  have hpid := List.find?_some h
  unfold World.opened World.handle
  rw [h, ← beq_iff_eq.1 hpid]
  rfl

private theorem openProcess_eq_guarded (info : ProcessInfo) :
    processes.openProcess info =
      Faulty.guarded info.pid .openProcess (.onWorld fun w => (w.opened info, w)) := by
  have hopen : World.platform.openProcess info = .onWorld fun w => (w.opened info, w) := by
    dsimp only [World.platform, World.opened]
    congr 1
    funext w
    cases w.living.find? fun slot => (w.target slot).info.pid == info.pid <;> rfl
  exact congrArg (Faulty.guarded info.pid .openProcess) hopen

/-- The process that a number stands for is the same in both worlds, and so are the failures ahead of it. -/
structure Alike (pid : UInt32) (slot slot' : Nat) (s s' : Faulty World) : Prop where
  here : s.world.living.find? (fun slot => (s.world.target slot).info.pid == pid) = some slot
  there : s'.world.living.find? (fun slot => (s'.world.target slot).info.pid == pid) = some slot'
  target : s'.world.target slot' = s.world.target slot
  faults : faults s' pid = faults s pid

section Alike

variable {pid : UInt32} {slot slot' : Nat} {α : Type}

private theorem paired_check (operation : Operation) :
    Action.Paired (Alike pid slot slot') (Faulty.check pid operation) (Faulty.check pid operation) Eq := by
  rintro s s' ⟨hhere, hthere, htarget, hfaults⟩
  have hkey : decide ((pid, operation).1 = pid) = true := decide_eq_true rfl
  have hs := Schedule.meet_awaiting (p := fun key => decide (key.1 = pid)) hkey s.world.schedule
  have hs' := Schedule.meet_awaiting (p := fun key => decide (key.1 = pid)) hkey s'.world.schedule
  have hmet := (hs'.symm.trans (congrArg (Schedule.meet (pid, operation)) hfaults)).trans hs
  exact ⟨(congrArg Prod.fst hmet).symm, hhere, hthere, htarget, congrArg Prod.snd hmet⟩

/-- What depends on the process alone is the same in both worlds. -/
private theorem paired_guarded (operation : Operation) (f : Target → Except Failure α) :
    Attempt.Paired (Alike pid slot slot')
      (Faulty.guarded pid operation (.onWorld fun w => (f (w.target slot), w)))
      (Faulty.guarded pid operation (.onWorld fun w => (f (w.target slot'), w))) Eq := by
  refine Action.Paired.bind_same (paired_check operation) fun failure => ?_
  cases failure with
  | some failure => exact Action.Paired.pure rfl
  | none =>
    intro s s' hs
    refine ⟨?_, hs⟩
    show Failure.Matching Eq (f (s.world.world.target slot)) (f (s'.world.world.target slot'))
    rw [hs.target]
    cases f (s.world.world.target slot) <;> rfl

private theorem paired_looks : Platform.Paired (Alike pid slot slot') processes ⟨slot, pid⟩ processes ⟨slot', pid⟩ where
  hasExited := by
    refine Action.Paired.bind_same (paired_check .hasExited) fun failure => ?_
    cases failure with
    | some failure => exact Action.Paired.pure rfl
    | none => exact fun s s' hs => ⟨(congrArg Target.exited hs.target).symm, hs⟩
  is64Bit := paired_guarded .is64Bit fun t => .ok t.is64Bit
  moduleBase := paired_guarded .moduleBase fun t => if t.exited then .error .exited else .ok t.moduleBase
  read address n := paired_guarded .read fun t => t.read address n
  close := fun _ _ hs => ⟨rfl, hs⟩

private theorem paired_openProcess {info : ProcessInfo} (hpid : info.pid = pid) :
    Attempt.Paired (Alike pid slot slot') (processes.openProcess info) (processes.openProcess info)
      fun handle handle' => handle = ⟨slot, pid⟩ ∧ handle' = ⟨slot', pid⟩ := by
  subst hpid
  rw [openProcess_eq_guarded]
  refine Action.Paired.bind_same (paired_check .openProcess) fun failure => ?_
  cases failure with
  | some failure => exact Action.Paired.pure rfl
  | none =>
    intro s s' hs
    refine ⟨?_, hs⟩
    show Failure.Matching _ (s.world.world.opened info) (s'.world.world.opened info)
    rw [World.opened_eq_ok hs.here, World.opened_eq_ok hs.there]
    exact ⟨rfl, rfl⟩

/-- A process gives in both worlds the same candidate. -/
private theorem Alike.openAndProbe {info : ProcessInfo} {s s' : Traced (Faulty World)}
    (h : Alike info.pid slot slot' s.world s'.world) :
    (processes.openAndProbe info s').1 = ((processes.openAndProbe info s).1).map (·.onto ⟨slot', info.pid⟩) := by
  have hopen : Attempt.Paired (Alike info.pid slot slot')
      (do processes.probe (← processes.openProcess info) : Attempt (Faulty World) _)
      (do processes.probe (← processes.openProcess info) : Attempt (Faulty World) _)
      fun found found' => found' = found.map (·.onto ⟨slot', info.pid⟩) := by
    refine .bind (paired_openProcess rfl) ?_
    rintro _ _ ⟨rfl, rfl⟩
    exact paired_looks.probe
  have hpaired : Action.Paired (Alike info.pid slot slot') (processes.openAndProbe info) (processes.openAndProbe info)
      fun found found' => found' = found.map (·.onto ⟨slot', info.pid⟩) := by
    refine Action.Paired.bind hopen fun result result' hresults => ?_
    match result, result' with
    | .ok found, .ok _ => exact Action.Paired.pure hresults
    | .error failure, .error failure' =>
      exact Action.Paired.bind_same (Action.Paired.report _ _) fun _ => Action.Paired.pure rfl
  exact (hpaired s s' h).1

end Alike

/-! ### The others -/

section Checked

variable {pid : UInt32} {now : Faulty World → Prop}
  (h : ∀ operation, Action.Ensures now (Faulty.check pid operation) fun _ => now)
include h

/-- An answer is looked up in the world and changes nothing in it. -/
private theorem ensures_answered {α : Type} (operation : Operation) (f : World → Except Failure α) :
    Attempt.Ensures now (Faulty.guarded pid operation (.onWorld fun w => (f w, w))) (fun _ => now) now := by
  have hanswer : Action.Ensures now (Faulty.guarded pid operation (.onWorld fun w => (f w, w))).outcome
      fun _ => now := by
    refine .bind (h operation) fun failure => ?_
    cases failure with
    | some failure => exact .pure fun _ hs => hs
    | none => exact fun _ hs => hs
  refine hanswer.post_mono fun result s hs => ?_
  cases result <;> exact hs

private theorem looks_checked (slot : Nat) : processes.Looks ⟨slot, pid⟩ now where
  hasExited := by
    refine .bind (h .hasExited) fun failure => ?_
    cases failure with
    | some failure => exact .pure fun _ hs => hs
    | none => exact fun _ hs => hs
  is64Bit := ensures_answered h .is64Bit fun w => .ok (w.target slot).is64Bit
  moduleBase := ensures_answered h .moduleBase fun w =>
    if (w.target slot).exited then .error .exited else .ok (w.target slot).moduleBase
  read address n := ensures_answered h .read fun w => (w.target slot).read address n

private theorem ensures_openProcess_checked {info : ProcessInfo} (hpid : info.pid = pid) :
    Attempt.Ensures now (processes.openProcess info) (fun handle s => handle.pid = pid ∧ now s) now := by
  subst hpid
  intro s hs
  have hnow : Attempt.Ensures now (processes.openProcess info) (fun _ => now) now := by
    rw [openProcess_eq_guarded]
    exact ensures_answered h .openProcess fun w => w.opened info
  have hopened := (ensures_opened s.world.world info).and hnow s ⟨rfl, hs⟩
  cases hresult : ((processes.openProcess info).outcome s).1 with
  | error failure =>
    rw [hresult] at hopened
    exact hopened.2
  | ok handle =>
    rw [hresult] at hopened
    obtain ⟨⟨slot, -, hpid, rfl⟩, hkept⟩ := hopened
    exact ⟨hpid, hkept⟩

/-- What the failures that wait for a process do not change is kept when it is opened and looked at. -/
private theorem ensures_openAndProbe_checked {info : ProcessInfo} (hpid : info.pid = pid) :
    Action.Ensures now (processes.openAndProbe info) fun _ => now := by
  have hprobe : ∀ handle, Attempt.Ensures (fun s => handle.pid = pid ∧ now s) (processes.probe handle)
      (fun _ => now) now := by
    rintro ⟨slot, _⟩ s ⟨rfl, hs⟩
    have := Platform.ensures_probed (looks_checked h slot) (fun _ hs => hs) s hs
    cases ((processes.probe ⟨slot, _⟩).outcome s).1 <;> exact this
  refine Action.Ensures.bind (Attempt.Ensures.bind (ensures_openProcess_checked h hpid) hprobe) fun result => ?_
  cases result with
  | ok found => exact Action.Ensures.pure fun _ hs => hs
  | error failure => exact Action.Ensures.bind Action.Ensures.report fun _ => Action.Ensures.pure fun _ hs => hs

end Checked

private theorem world_openAndProbe (info : ProcessInfo) (s : Traced (Faulty World)) :
    (processes.openAndProbe info s).2.world.world = s.world.world := by
  have hkept : Action.Ensures (fun s' : Faulty World => s'.world = s.world.world) (processes.openAndProbe info)
      fun _ s' => s'.world = s.world.world := ensures_openAndProbe_checked (fun _ _ hs => hs) rfl
  exact hkept s rfl

/-- The numbers of the living processes are pairwise different. -/
def World.Distinct (w : World) : Prop := (w.living.map fun slot => (w.target slot).info.pid).Nodup

private theorem World.Distinct.numbered {w : World} (h : w.Distinct) : w.Numbered :=
  fun _ hslot _ hslot' hpid => List.inj_on_of_nodup_map h hslot hslot' hpid

private theorem World.Distinct.find? {w : World} (h : w.Distinct) {slot : Nat} (hslot : slot ∈ w.living) :
    w.living.find? (fun slot' => (w.target slot').info.pid == (w.target slot).info.pid) = some slot := by
  cases hfind : w.living.find? (fun slot' => (w.target slot').info.pid == (w.target slot).info.pid) with
  | none =>
    have := List.find?_eq_none.1 hfind slot hslot
    simp at this
  | some slot' =>
    have hpid := List.find?_some hfind
    rw [h.numbered slot' (List.mem_of_find?_eq_some hfind) slot hslot (beq_iff_eq.1 hpid)]

/-- What a listed process comes to when it is looked for under a name. -/
def choice (name : String) (s : Traced (Faulty World)) (slot : Nat) : Option (Candidate Handle) :=
  if (s.world.world.target slot).info.Fits name then
    (processes.openAndProbe (s.world.world.target slot).info s).1
  else none

section Distinct

variable {w w' : World} (hdistinct : w.Distinct)
include hdistinct

private theorem alike_of_distinct {s s' : Faulty World} (hs : s.world = w) (hs' : s'.world = w')
    (hdistinct' : w'.Distinct) {slot slot' : Nat} (hslot : slot ∈ w.living) (hslot' : slot' ∈ w'.living)
    (htarget : w'.target slot' = w.target slot)
    (hfaults : faults s' (w.target slot).info.pid = faults s (w.target slot).info.pid) :
    Alike (w.target slot).info.pid slot slot' s s' := by
  subst hs hs'
  have hthere := hdistinct'.find? hslot'
  rw [htarget] at hthere
  exact ⟨hdistinct.find? hslot, hthere, htarget, hfaults⟩

/-- What an open process gives is the process itself. -/
private theorem openAndProbe_onto {s : Traced (Faulty World)} (hs : s.world.world = w) {slot : Nat}
    (hslot : slot ∈ w.living) :
    ((processes.openAndProbe (w.target slot).info s).1).map (·.onto (w.handle slot)) =
      (processes.openAndProbe (w.target slot).info s).1 :=
  (alike_of_distinct hdistinct hs hs hdistinct hslot hslot rfl rfl).openAndProbe.symm

/-- What a process comes to does not depend on who had a turn before it. -/
private theorem choice_after {s : Traced (Faulty World)} (hs : s.world.world = w) {first slot : Nat}
    (hfirst : first ∈ w.living) (hslot : slot ∈ w.living) (hne : first ≠ slot) (name : String) :
    choice name (processes.openAndProbe (w.target first).info s).2 slot = choice name s slot := by
  have hworld := (world_openAndProbe (w.target first).info s).trans hs
  have hpid : (w.target first).info.pid ≠ (w.target slot).info.pid :=
    fun hsame => hne (hdistinct.numbered first hfirst slot hslot hsame)
  have hfaults : faults (processes.openAndProbe (w.target first).info s).2.world (w.target slot).info.pid =
      faults s.world (w.target slot).info.pid := by
    have hkept : Action.Ensures (fun s' => faults s' (w.target slot).info.pid = faults s.world (w.target slot).info.pid)
        (processes.openAndProbe (w.target first).info)
        fun _ s' => faults s' (w.target slot).info.pid = faults s.world (w.target slot).info.pid :=
      ensures_openAndProbe_checked (fun operation s' hs' => (faults_check hpid operation s').trans hs') rfl
    exact hkept s rfl
  have halike := alike_of_distinct hdistinct hs hworld hdistinct hslot hslot rfl hfaults
  unfold choice
  rw [hworld, hs, halike.openAndProbe.trans (openAndProbe_onto hdistinct hs hslot)]

/-- The first process is taken that comes to something. -/
private theorem firstCandidate_eq_findSome? (name : String) {slots : List Nat} (hslots : slots ⊆ w.living)
    (hnodup : slots.Nodup) {s : Traced (Faulty World)} (hs : s.world.world = w) {f : Nat → Option (Candidate Handle)}
    (hf : ∀ slot ∈ slots, choice name s slot = f slot) :
    (processes.firstCandidate ((slots.map fun slot => (w.target slot).info).filter (·.Fits name)) s).1 =
      slots.findSome? f := by
  -- the state changes from turn to turn, but what is left to come does not, so it is a parameter
  induction slots generalizing s with
  | nil => rfl
  | cons slot rest ih =>
    obtain ⟨hslot, hrest⟩ := List.cons_subset.1 hslots
    obtain ⟨hmem, hnodup⟩ := List.nodup_cons.1 hnodup
    obtain ⟨hfirst, hlater⟩ := List.forall_mem_cons.1 hf
    unfold choice at hfirst
    rw [hs] at hfirst
    rw [List.map_cons, List.findSome?_cons, ← hfirst]
    by_cases hname : (w.target slot).info.Fits name
    · rw [List.filter_cons, if_pos (decide_eq_true hname), if_pos hname, Platform.firstCandidate_cons]
      cases (processes.openAndProbe (w.target slot).info s).1 with
      | some candidate => rfl
      | none =>
        have hworld := (world_openAndProbe (w.target slot).info s).trans hs
        refine ih hrest hnodup hworld fun slot' hslot' => ?_
        have hne : slot ≠ slot' := fun hsame => hmem (hsame ▸ hslot')
        exact (choice_after hdistinct hs hslot (hrest hslot') hne name).trans (hlater slot' hslot')
    · rw [List.filter_cons, if_neg fun h => hname (of_decide_eq_true h), if_neg hname]
      exact ih hrest hnodup hs hlater

end Distinct

/-! ### The first qualifying process -/

/-- The process has a fitting name and is admitted. -/
def Qualifies (name : String) (s : Traced (Faulty World)) (slot : Nat) : Prop :=
  (s.world.world.target slot).info.Fits name ∧
    ∃ candidate, processes.Admits (s.world.world.target slot).info candidate s

private theorem choice_eq_some {name : String} {s : Traced (Faulty World)} {slot : Nat} {candidate : Candidate Handle} :
    choice name s slot = some candidate ↔ (s.world.world.target slot).info.Fits name ∧
      processes.Admits (s.world.world.target slot).info candidate s := by
  unfold choice
  rw [← Platform.openAndProbe_eq_some]
  split
  · rename_i hname
    exact (and_iff_right hname).symm
  · rename_i hname
    exact iff_of_false nofun fun h => hname h.1

private theorem choice_eq_none {name : String} {s : Traced (Faulty World)} {slot : Nat} :
    choice name s slot = none ↔ ¬ Qualifies name s slot := by
  unfold Qualifies
  rw [Option.eq_none_iff_forall_not_mem, not_and, not_exists]
  simp only [Option.mem_def, choice_eq_some, not_and]
  exact forall_comm

/-- What is found is what the first process gives that gives anything. -/
private theorem findTarget_eq_findSome? {s : Traced (Faulty World)} (hdistinct : s.world.world.Distinct)
    (name : String) :
    (processes.findTarget name s).1 =
      if s.world.world.refuseListing then none else s.world.world.living.findSome? (choice name s) := by
  have hlisting : processes.processes.outcome s = (if s.world.world.refuseListing then
      .error (.listing "injected failure")
      else .ok (s.world.world.living.map fun slot => (s.world.world.target slot).info), s) := rfl
  rw [Platform.findTarget_eq, hlisting]
  cases s.world.world.refuseListing with
  | true => rfl
  | false =>
    exact firstCandidate_eq_findSome? hdistinct name (List.Subset.refl _) (List.Nodup.of_map _ hdistinct) rfl
      fun _ _ => rfl

/-- Items that give nothing can be left out. -/
private theorem findSome?_of_sublist {α β : Type} {f : α → Option β} {l l' : List α} (h : l.Sublist l')
    (hnodup : l'.Nodup) (hnone : ∀ a ∈ l', a ∉ l → f a = none) : l'.findSome? f = l.findSome? f := by
  induction h with
  | slnil => rfl
  | cons a hsub ih =>
    obtain ⟨hmem, hnodup⟩ := List.nodup_cons.1 hnodup
    obtain ⟨hfirst, hlater⟩ := List.forall_mem_cons.1 hnone
    rw [List.findSome?_cons, hfirst fun ha => hmem (hsub.subset ha)]
    exact ih hnodup hlater
  | cons_cons a hsub ih =>
    obtain ⟨hmem, hnodup⟩ := List.nodup_cons.1 hnodup
    rw [List.findSome?_cons, List.findSome?_cons, ih hnodup]
    intro b hb hbl
    refine hnone b (List.mem_cons_of_mem _ hb) fun hb' => ?_
    rcases List.mem_cons.1 hb' with rfl | hb'
    · exact hmem hb
    · exact hbl hb'

/-- The second state differs from the first one only in processes that do not qualify. Those that are kept are the same,
with the same failures ahead, and are listed in the same order. All others were removed, added or changed. -/
structure Varies (name : String) (s s' : Traced (Faulty World)) (kept : List (Nat × Nat)) : Prop where
  listing : s'.world.world.refuseListing = s.world.world.refuseListing
  before : (kept.map (·.1)).Sublist s.world.world.living
  after : (kept.map (·.2)).Sublist s'.world.world.living
  target : ∀ pair ∈ kept, s'.world.world.target pair.2 = s.world.world.target pair.1
  faults : ∀ pair ∈ kept, faults s'.world (s.world.world.target pair.1).info.pid =
    faults s.world (s.world.world.target pair.1).info.pid
  removed : ∀ slot ∈ s.world.world.living, slot ∉ kept.map (·.1) → ¬ Qualifies name s slot
  added : ∀ slot ∈ s'.world.world.living, slot ∉ kept.map (·.2) → ¬ Qualifies name s' slot

/-- A process that is kept comes to the same in both states. -/
private theorem Varies.choice_eq {name : String} {s s' : Traced (Faulty World)} {kept : List (Nat × Nat)}
    (h : Varies name s s' kept) (hdistinct : s.world.world.Distinct) (hdistinct' : s'.world.world.Distinct)
    {pair : Nat × Nat} (hpair : pair ∈ kept) :
    choice name s' pair.2 = (choice name s pair.1).map (·.onto (s'.world.world.handle pair.2)) := by
  have hslot := h.before.subset (List.mem_map_of_mem hpair)
  have hslot' := h.after.subset (List.mem_map_of_mem hpair)
  have htarget := h.target pair hpair
  have halike := alike_of_distinct hdistinct rfl rfl hdistinct' hslot hslot' htarget (h.faults pair hpair)
  unfold choice World.handle
  rw [htarget]
  split
  · exact halike.openAndProbe
  · rfl

private theorem process_of_choice {name : String} {s : Traced (Faulty World)} (hdistinct : s.world.world.Distinct)
    {slot : Nat}
    (hslot : slot ∈ s.world.world.living) {candidate : Candidate Handle} (h : choice name s slot = some candidate) :
    candidate.process = s.world.world.handle slot := by
  have hfound := Platform.openAndProbe_eq_some.2 (choice_eq_some.1 h).2
  have honto := openAndProbe_onto hdistinct rfl hslot
  rw [hfound] at honto
  exact (congrArg Candidate.process (Option.some.inj honto)).symm

/-- If each process comes to the same on both sides, so does the first of them that comes to something. -/
private theorem findSome?_pairs {f f' : Nat → Option (Candidate Handle)} {w w' : World} {kept : List (Nat × Nat)}
    (hown : ∀ pair ∈ kept, ∀ candidate, f pair.1 = some candidate → candidate.process = w.handle pair.1)
    (hsame : ∀ pair ∈ kept, f' pair.2 = (f pair.1).map (·.onto (w'.handle pair.2))) :
    ((kept.map (·.1)).findSome? f = none ∧ (kept.map (·.2)).findSome? f' = none) ∨
      ∃ pair ∈ kept, ∃ candidate, (kept.map (·.1)).findSome? f = some candidate ∧
        candidate.process = w.handle pair.1 ∧
        (kept.map (·.2)).findSome? f' = some (candidate.onto (w'.handle pair.2)) := by
  induction kept with
  | nil => exact .inl ⟨rfl, rfl⟩
  | cons pair rest ih =>
    obtain ⟨hfirst, hrest⟩ := List.forall_mem_cons.1 hown
    obtain ⟨hfirst', hrest'⟩ := List.forall_mem_cons.1 hsame
    rw [List.map_cons, List.map_cons, List.findSome?_cons, List.findSome?_cons, hfirst']
    cases hfound : f pair.1 with
    | some candidate => exact .inr ⟨pair, List.mem_cons_self .., candidate, rfl, hfirst candidate hfound, rfl⟩
    | none =>
      refine (ih hrest hrest').imp_right ?_
      rintro ⟨pair', hpair', hothers⟩
      exact ⟨pair', List.mem_cons_of_mem _ hpair', hothers⟩

/-- The same process is found in both states, if there is one to be found. -/
private theorem Varies.findTarget {name : String} {s s' : Traced (Faulty World)} {kept : List (Nat × Nat)}
    (h : Varies name s s' kept) (hdistinct : s.world.world.Distinct) (hdistinct' : s'.world.world.Distinct) :
    ((processes.findTarget name s).1 = none ∧ (processes.findTarget name s').1 = none) ∨
      ∃ pair ∈ kept, ∃ candidate, (processes.findTarget name s).1 = some candidate ∧
        candidate.process = s.world.world.handle pair.1 ∧
        (processes.findTarget name s').1 = some (candidate.onto (s'.world.world.handle pair.2)) := by
  rw [findTarget_eq_findSome? hdistinct, findTarget_eq_findSome? hdistinct', h.listing]
  cases s.world.world.refuseListing with
  | true => exact .inl ⟨rfl, rfl⟩
  | false =>
    -- on both sides only those that are kept can be found
    have hremoved := findSome?_of_sublist h.before (List.Nodup.of_map _ hdistinct) fun slot hslot hout =>
      choice_eq_none.2 (h.removed slot hslot hout)
    have hadded := findSome?_of_sublist h.after (List.Nodup.of_map _ hdistinct') fun slot hslot hout =>
      choice_eq_none.2 (h.added slot hslot hout)
    simp only [Bool.false_eq_true, ↓reduceIte]
    rw [hremoved, hadded]
    refine findSome?_pairs (fun pair hpair candidate hfound => ?_)
      fun pair hpair => h.choice_eq hdistinct hdistinct' hpair
    exact process_of_choice hdistinct (h.before.subset (List.mem_map_of_mem hpair)) hfound

/-- **The first qualifying process is found, whatever the others do.** On any platform the first listed process is taken
that has a fitting name and is admitted when it has its turn; nothing is found if there is no list, or if each of them
is rejected. If the numbers of the processes are pairwise different, it is the first process that qualifies from the
start, with the candidate that it gives from the start. In a state that differs only in processes that do not qualify,
the same process is found with the same candidate, or again none. -/
theorem first_qualifying_is_found (name : String) :
    (∀ {σ π : Type} (platform : Platform σ π) (s : Traced σ),
      (∀ candidate, (platform.findTarget name s).1 = some candidate ↔ ∃ infos before info after,
        (platform.processes.outcome s).1 = .ok infos ∧ infos.filter (·.Fits name) = before ++ info :: after ∧
        platform.Rejects before (platform.processes.outcome s).2 ∧
        platform.Admits info candidate (platform.reached before (platform.processes.outcome s).2)) ∧
      ((platform.findTarget name s).1 = none ↔ (∃ failure, (platform.processes.outcome s).1 = .error failure) ∨
        ∃ infos, (platform.processes.outcome s).1 = .ok infos ∧
          platform.Rejects (infos.filter (·.Fits name)) (platform.processes.outcome s).2)) ∧
    ∀ s : Traced (Faulty World), s.world.world.Distinct →
      (∀ candidate, (processes.findTarget name s).1 = some candidate ↔
        s.world.world.refuseListing = false ∧ ∃ before slot after,
          s.world.world.living = before ++ slot :: after ∧ (∀ earlier ∈ before, ¬ Qualifies name s earlier) ∧
          (s.world.world.target slot).info.Fits name ∧
          processes.Admits (s.world.world.target slot).info candidate s) ∧
      ((processes.findTarget name s).1 = none ↔
        s.world.world.refuseListing = true ∨ ∀ slot ∈ s.world.world.living, ¬ Qualifies name s slot) ∧
      ∀ s' kept, s'.world.world.Distinct → Varies name s s' kept →
        ((processes.findTarget name s).1 = none ∧ (processes.findTarget name s').1 = none) ∨
          ∃ pair ∈ kept, ∃ candidate, (processes.findTarget name s).1 = some candidate ∧
            candidate.process = s.world.world.handle pair.1 ∧
            (processes.findTarget name s').1 = some (candidate.onto (s'.world.world.handle pair.2)) := by
  refine ⟨fun platform s => ⟨fun candidate => Platform.findTarget_eq_some, Platform.findTarget_eq_none⟩,
    fun s hdistinct => ⟨fun candidate => ?_, ?_,
      fun s' kept hdistinct' hvaries => hvaries.findTarget hdistinct hdistinct'⟩⟩
  · rw [findTarget_eq_findSome? hdistinct]
    cases s.world.world.refuseListing with
    | true => exact iff_of_false nofun nofun
    | false =>
      simp only [Bool.false_eq_true, ↓reduceIte, true_and]
      rw [List.findSome?_eq_some_iff]
      simp only [choice_eq_some, choice_eq_none]
      constructor
      · rintro ⟨before, slot, after, hliving, ⟨hname, hadmits⟩, hearlier⟩
        exact ⟨before, slot, after, hliving, hearlier, hname, hadmits⟩
      · rintro ⟨before, slot, after, hliving, hearlier, hname, hadmits⟩
        exact ⟨before, slot, after, hliving, ⟨hname, hadmits⟩, hearlier⟩
  · rw [findTarget_eq_findSome? hdistinct]
    cases s.world.world.refuseListing with
    | true => exact iff_of_true rfl (.inl rfl)
    | false =>
      simp only [Bool.false_eq_true, ↓reduceIte, false_or]
      rw [List.findSome?_eq_none_iff]
      simp only [choice_eq_none]

/-! #### The game and other processes -/

/-- Before the game comes a process of 64 bits. -/
def crowd : Traced (Faulty World) where
  world := { world := {
    targets := [{ Scene.retailGame with info := ⟨5, "mc2.exe"⟩, is64Bit := true }, Scene.retailGame]
    listed := [0, 1] } }

/-- This process has gone. Others have come, of which the first has another name and the second cannot be read. -/
def otherCrowd : Traced (Faulty World) where
  world := {
    world := {
      targets := [{ info := ⟨3, "launcher.exe"⟩ }, Scene.retailGame, { Scene.retailGame with info := ⟨9, "MC2.EXE"⟩ }]
      listed := [0, 2, 1] }
    schedule := [⟨(9, .read), 1, 1, .reading 0x403B80 "access denied"⟩] }

private theorem varies_crowd : Varies "Mc2" crowd otherCrowd [(1, 1)] := by
  have hremoved : ∀ slot ∈ crowd.world.world.living, slot ∉ [1] → (choice "Mc2" crowd slot).isNone = true := by
    decide +kernel
  have hadded : ∀ slot ∈ otherCrowd.world.world.living, slot ∉ [1] → (choice "Mc2" otherCrowd slot).isNone = true := by
    decide +kernel
  refine ⟨rfl, by decide, by decide, ?_, ?_, fun slot hslot hout => ?_, fun slot hslot hout => ?_⟩
  · rintro _ (_ | ⟨_, ⟨⟩⟩)
    rfl
  · rintro _ (_ | ⟨_, ⟨⟩⟩)
    rfl
  · exact choice_eq_none.1 (Option.isNone_iff_eq_none.1 (hremoved slot hslot hout))
  · exact choice_eq_none.1 (Option.isNone_iff_eq_none.1 (hadded slot hslot hout))

/-- In both crowds the game is found. -/
theorem first_qualifying_is_found_in_crowds : ∃ candidate,
    (processes.findTarget "Mc2" crowd).1 = some candidate ∧ candidate.process = ⟨1, 7⟩ ∧
      (processes.findTarget "Mc2" otherCrowd).1 = some (candidate.onto ⟨1, 7⟩) := by
  have hdistinct : crowd.world.world.Distinct := by
    unfold World.Distinct
    decide
  have hdistinct' : otherCrowd.world.world.Distinct := by
    unfold World.Distinct
    decide
  obtain ⟨-, hcrowd⟩ := first_qualifying_is_found "Mc2"
  obtain ⟨-, -, hvaries⟩ := hcrowd crowd hdistinct
  rcases hvaries otherCrowd [(1, 1)] hdistinct' varies_crowd with
    ⟨hnone, -⟩ | ⟨pair, hpair, candidate, hfound, hprocess, hfound'⟩
  · have hsome : (processes.findTarget "Mc2" crowd).1.isSome = true := by decide +kernel
    rw [hnone] at hsome
    cases hsome
  · obtain rfl := List.mem_singleton.1 hpair
    exact ⟨candidate, hfound, hprocess, hfound'⟩

end InMemory

end LoadRemover
