import LoadRemover.Proofs.Events
import LoadRemover.Proofs.Preambles

/-!
# Rules for looking

Finding the game and polling it only look at processes. A platform is `Quiet` in the worlds in which looking changes
nothing that matters and answers are right, as its `Sight` says. Then a process is accepted exactly if what there is
to be seen of it is acceptable, unless an access fails (`Quiet.ensures_probe`); so what `findTarget` finds has the code
of its build at every site (`Quiet.ensures_findTarget`). A poll changes in a session only what it knows about the
flags (`Quiet.ensures_poll`). So an update does nothing but look, unless it attaches to a process that is acceptable
(`Quiet.ensures_update`). What looking at one process keeps (`Platform.Looks`) is kept by a probe and by a poll of it,
whatever the answers are.
-/

namespace LoadRemover

variable {σ π : Type}

/-- What there is to be seen of processes. -/
structure Sight (π : Type) where
  is64Bit : π → Bool
  moduleBase : π → UInt32
  /-- The bytes that reading gives, if it gives any. -/
  read : π → UInt32 → Nat → Option Bytes

namespace Sight

variable (sight : Sight π) (process : π)

/-- The build of the signature that is seen. -/
def build? : Option Build :=
  (sight.read process (sight.moduleBase process + Build.signatureOffset) 4).bind fun bytes =>
    Build.ofSignature? bytes.word

/-- The code has an address, and it is seen there. -/
def Holds (code : Code) : Prop :=
  code.isPlaced = true ∧ sight.read process code.base code.bytes.length = some code.bytes

instance (code : Code) : Decidable (sight.Holds process code) := inferInstanceAs (Decidable (_ ∧ _))

/-- What a process gives that is looked at without a failure. -/
def candidate? : Option (Candidate π) :=
  if sight.is64Bit process then none
  else
    (sight.build? process).bind fun build =>
      if ∀ snapshot ∈ build.snapshots (sight.moduleBase process), sight.Holds process snapshot.code then
        some ⟨process, build, sight.moduleBase process, build.snapshots (sight.moduleBase process)⟩
      else none

end Sight

/-- The process is of the known build, and each site holds the code that the build has there. -/
structure Candidate.Verified (sight : Sight π) (candidate : Candidate π) : Prop where
  narrow : sight.is64Bit candidate.process = false
  base : candidate.moduleBase = sight.moduleBase candidate.process
  build : sight.build? candidate.process = some candidate.build
  snapshots : candidate.snapshots = candidate.build.snapshots candidate.moduleBase
  code : ∀ snapshot ∈ candidate.snapshots, sight.Holds candidate.process snapshot.code

namespace Candidate.Verified

variable {sight sight' : Sight π} {candidate : Candidate π} {process : π}

theorem known (h : candidate.Verified sight) : candidate.build ∈ Build.known := by
  obtain ⟨bytes, -, hbuild⟩ := Option.bind_eq_some_iff.1 h.build
  exact List.mem_of_find?_eq_some hbuild

/-- A verified candidate is what its process gives, also where the process is known by another handle. -/
theorem candidate?_eq (h : candidate.Verified sight) (hnarrow : sight'.is64Bit process = false)
    (hbase : sight'.moduleBase process = candidate.moduleBase)
    (hbuild : sight'.build? process = some candidate.build)
    (hcode : ∀ snapshot ∈ candidate.snapshots, sight'.Holds process snapshot.code) :
    sight'.candidate? process = some { candidate with process } := by
  have hsnapshots := h.snapshots
  rw [hsnapshots] at hcode
  unfold Sight.candidate?
  rw [hnarrow, hbuild, hbase, Option.bind_some, if_pos hcode, ← hsnapshots]
  rfl

end Candidate.Verified

theorem Sight.verified_of_candidate? {sight : Sight π} {process : π} {candidate : Candidate π}
    (h : sight.candidate? process = some candidate) : candidate.process = process ∧ candidate.Verified sight := by
  unfold candidate? at h
  split at h
  · cases h
  rename_i hwide
  obtain ⟨build, hbuild, h⟩ := Option.bind_eq_some_iff.1 h
  split at h
  · rename_i hcode
    obtain rfl := Option.some.inj h
    exact ⟨rfl, Bool.not_eq_true _ ▸ hwide, rfl, hbuild, rfl, hcode⟩
  · cases h

/-- Looking at processes keeps `now` and shows what there is to be seen. Where it fails it leaves `gone`, and so does
a process that is said to have ended. -/
structure Platform.Quiet (platform : Platform σ π) (sight : Sight π) (now gone : σ → Prop) : Prop where
  processes : Attempt.Ensures now platform.processes (fun _ => now) gone
  openProcess : ∀ info, Attempt.Ensures now (platform.openProcess info) (fun _ => now) gone
  close : ∀ process, Action.Ensures now (platform.close process) fun _ => now
  leave : ∀ process, Action.Ensures gone (platform.close process) fun _ => gone
  hasExited : ∀ process,
    Action.Ensures now (platform.hasExited process) fun exited => if exited = true then gone else now
  is64Bit : ∀ process, Attempt.Ensures now (platform.is64Bit process)
    (fun is64Bit w => is64Bit = sight.is64Bit process ∧ now w) gone
  moduleBase : ∀ process, Attempt.Ensures now (platform.moduleBase process)
    (fun base w => base = sight.moduleBase process ∧ now w) gone
  read : ∀ process a n, Attempt.Ensures now (platform.read process a n)
    (fun bytes w => sight.read process a n = some bytes ∧ now w) gone

/-- The session is that of before, with what it knows about the flags aside. -/
structure Session.SameProcess (session session' : Session π) : Prop where
  process : session'.process = session.process
  build : session'.build = session.build
  moduleBase : session'.moduleBase = session.moduleBase
  snapshots : session'.snapshots = session.snapshots
  head : session'.head = session.head
  flag : session'.flag = session.flag

/-! ### What looking keeps -/

/-- Whatever is asked about the process keeps `now`. -/
structure Platform.Looks (platform : Platform σ π) (process : π) (now : σ → Prop) : Prop where
  hasExited : Action.Ensures now (platform.hasExited process) fun _ => now
  is64Bit : Attempt.Ensures now (platform.is64Bit process) (fun _ => now) now
  moduleBase : Attempt.Ensures now (platform.moduleBase process) (fun _ => now) now
  read : ∀ address n, Attempt.Ensures now (platform.read process address n) (fun _ => now) now

namespace Platform.Looks

variable {platform : Platform σ π} {process : π} {now : σ → Prop} (h : platform.Looks process now)
include h

private theorem ensures_snapshots (build : Build) (moduleBase : UInt32) (sites : List Site) :
    Attempt.Ensures now (platform.snapshots process build moduleBase sites) (fun _ => now) now := by
  induction sites with
  | nil => exact Attempt.Ensures.pure fun _ hw => hw
  | cons site rest ih =>
    have hholds : Attempt.Ensures now (platform.holdsCode process (preamble site build moduleBase))
        (fun _ => now) now := by
      unfold holdsCode
      cases (preamble site build moduleBase).isPlaced with
      | true => exact Attempt.Ensures.bind (h.read _ _) fun _ => Attempt.Ensures.pure fun _ hw => hw
      | false => exact Attempt.Ensures.throw_bind fun _ hw => hw
    unfold snapshots
    refine Attempt.Ensures.bind hholds fun same => ?_
    cases same with
    | true => exact Attempt.Ensures.bind ih fun _ => Attempt.Ensures.pure fun _ hw => hw
    | false => exact Attempt.Ensures.bind Attempt.Ensures.report fun _ => Attempt.Ensures.pure fun _ hw => hw

/-- What is found when a process is looked at is this process. -/
theorem ensures_examine : Attempt.Ensures now (probe.examine platform process)
    (fun found w => (∀ candidate ∈ found, candidate.process = process) ∧ now w) now := by
  have hnothing : ∀ w, now w → (∀ candidate ∈ (none : Option (Candidate π)), candidate.process = process) ∧ now w :=
    fun _ hw => ⟨nofun, hw⟩
  unfold probe.examine
  refine Attempt.Ensures.bind (Attempt.Ensures.lift h.hasExited) fun exited => ?_
  cases exited with
  | true => exact Attempt.Ensures.bind Attempt.Ensures.report fun _ => Attempt.Ensures.pure hnothing
  | false =>
  refine Attempt.Ensures.bind h.is64Bit fun is64Bit => ?_
  cases is64Bit with
  | true => exact Attempt.Ensures.bind Attempt.Ensures.report fun _ => Attempt.Ensures.pure hnothing
  | false =>
  refine Attempt.Ensures.bind h.moduleBase fun moduleBase => ?_
  have hword : Attempt.Ensures now (platform.readWord process (moduleBase + Build.signatureOffset)) (fun _ => now)
      now := Attempt.Ensures.bind (h.read _ 4) fun _ => Attempt.Ensures.pure fun _ hw => hw
  have hdetect : Attempt.Ensures now (platform.detectBuild process moduleBase) (fun _ => now) now := by
    refine Attempt.Ensures.bind hword fun signature => ?_
    cases Build.ofSignature? signature <;>
      exact Attempt.Ensures.bind Attempt.Ensures.report fun _ => Attempt.Ensures.pure fun _ hw => hw
  refine Attempt.Ensures.bind hdetect fun found => ?_
  cases found with
  | none => exact Attempt.Ensures.bind Attempt.Ensures.report fun _ => Attempt.Ensures.pure hnothing
  | some build =>
  refine Attempt.Ensures.bind (h.ensures_snapshots build moduleBase Site.all) fun found => ?_
  cases found with
  | none => exact Attempt.Ensures.pure hnothing
  | some snapshots =>
    refine Attempt.Ensures.pure fun _ hw => ⟨fun candidate hcandidate => ?_, hw⟩
    obtain rfl := Option.some.inj hcandidate
    rfl

private theorem ensures_updateAll {κ α : Type} [DecidableEq α] (layout : Layout α) (list : WatchList κ α) :
    Action.Ensures now (list.updateAll platform process layout) fun _ => now := by
  induction list with
  | nil => exact Action.Ensures.pure fun _ hw => hw
  | cons entry rest ih =>
    obtain ⟨key, watched⟩ := entry
    have hupdate : Attempt.Ensures now (watched.update platform process layout) (fun _ => now) now :=
      Attempt.Ensures.bind (h.read watched.address layout.width) fun _ => Attempt.Ensures.pure fun _ hw => hw
    refine Action.Ensures.bind hupdate fun result => ?_
    cases result with
    | error failure => exact Action.Ensures.pure fun _ hw => hw
    | ok observed => exact Action.Ensures.bind ih fun _ => Action.Ensures.pure fun _ hw => hw

omit h in
theorem ensures_poll {session : Session π} (h : platform.Looks session.process now) :
    Action.Ensures now (platform.poll session) fun poll w => session.SameProcess poll.session ∧ now w := by
  unfold poll
  refine Action.Ensures.bind h.hasExited fun exited => ?_
  cases exited with
  | true => exact Action.Ensures.pure fun _ hw => ⟨⟨rfl, rfl, rfl, rfl, rfl, rfl⟩, hw⟩
  | false =>
    refine Action.Ensures.bind (h.ensures_updateAll .byte session.watched) fun sweep => ?_
    refine Action.Ensures.bind (Action.Ensures.forIn fun _ _ =>
      Action.Ensures.bind Action.Ensures.report fun _ => Action.Ensures.pure fun _ hw => hw) fun _ => ?_
    simp only
    split
    · exact Action.Ensures.pure fun _ hw => ⟨⟨rfl, rfl, rfl, rfl, rfl, rfl⟩, hw⟩
    · exact Action.Ensures.pure fun _ hw => ⟨⟨rfl, rfl, rfl, rfl, rfl, rfl⟩, hw⟩

end Platform.Looks

namespace Platform.Quiet

variable {platform : Platform σ π} {sight : Sight π} {now gone : σ → Prop} (h : platform.Quiet sight now gone)
include h

/-! ### Probing -/

private theorem ensures_detectBuild (process : π) :
    Attempt.Ensures now (platform.detectBuild process (sight.moduleBase process))
      (fun found w => found = sight.build? process ∧ now w) gone := by
  have hword : Attempt.Ensures now (platform.readWord process (sight.moduleBase process + Build.signatureOffset))
      (fun signature w => Build.ofSignature? signature = sight.build? process ∧ now w) gone := by
    refine Attempt.Ensures.bind (h.read process _ 4) fun bytes => Attempt.Ensures.pure fun _ ⟨hbytes, hw⟩ => ⟨?_, hw⟩
    rw [Sight.build?, hbytes, Option.bind_some]
  refine Attempt.Ensures.bind hword fun signature => Action.Ensures.of_imp fun hsignature => ?_
  cases hfound : Build.ofSignature? signature with
  | none =>
    exact Attempt.Ensures.bind Attempt.Ensures.report fun _ =>
      Attempt.Ensures.pure fun _ hw => ⟨hfound ▸ hsignature, hw⟩
  | some build =>
    exact Attempt.Ensures.bind Attempt.Ensures.report fun _ =>
      Attempt.Ensures.pure fun _ hw => ⟨hfound ▸ hsignature, hw⟩

private theorem ensures_holdsCode (process : π) (code : Code) :
    Attempt.Ensures now (platform.holdsCode process code)
      (fun same w => (same = true ↔ sight.Holds process code) ∧ now w)
      fun w => gone w ∨ ¬ sight.Holds process code ∧ now w := by
  unfold holdsCode
  cases hplaced : code.isPlaced with
  | true =>
    simp only [↓reduceIte]
    refine Attempt.Ensures.bind ((h.read process code.base code.bytes.length).failed_mono fun _ hw => .inl hw)
      fun bytes => Attempt.Ensures.pure fun _ ⟨hbytes, hw⟩ => ⟨?_, hw⟩
    rw [beq_iff_eq, Sight.Holds, hbytes, Option.some_inj]
    exact (and_iff_right hplaced).symm
  | false =>
    refine Attempt.Ensures.throw_bind fun _ hw => .inr ⟨fun hholds => ?_, hw⟩
    cases hplaced.symm.trans hholds.1

private theorem ensures_snapshots (process : π) (build : Build) (moduleBase : UInt32) (sites : List Site) :
    Attempt.Ensures now (platform.snapshots process build moduleBase sites)
      (fun found w => found =
        (if ∀ snapshot ∈ sites.map fun site => (⟨site, preamble site build moduleBase⟩ : Snapshot),
            sight.Holds process snapshot.code then
          some (sites.map fun site => ⟨site, preamble site build moduleBase⟩) else none) ∧ now w)
      fun w => gone w ∨ (¬ ∀ snapshot ∈ sites.map fun site => (⟨site, preamble site build moduleBase⟩ : Snapshot),
        sight.Holds process snapshot.code) ∧ now w := by
  induction sites with
  | nil => exact Attempt.Ensures.pure fun _ hw => ⟨(if_pos (List.forall_mem_nil _)).symm, hw⟩
  | cons site rest ih =>
    unfold snapshots
    simp only [List.map_cons, List.forall_mem_cons] at ih ⊢
    refine Attempt.Ensures.bind ((h.ensures_holdsCode process (preamble site build moduleBase)).failed_mono
      fun _ hw => hw.imp id fun hw => ⟨fun hall => hw.1 hall.1, hw.2⟩) fun same => ?_
    refine Action.Ensures.of_imp fun hsame => ?_
    cases same with
    | false =>
      have hfirst : ¬ sight.Holds process (preamble site build moduleBase) := fun hholds => nomatch hsame.2 hholds
      refine Attempt.Ensures.bind Attempt.Ensures.report fun _ => ?_
      exact Attempt.Ensures.pure fun _ hw => ⟨(if_neg fun hall => hfirst hall.1).symm, hw⟩
    | true =>
      have hfirst : sight.Holds process (preamble site build moduleBase) := hsame.1 rfl
      refine Attempt.Ensures.bind (ih.failed_mono fun _ hw => hw.imp id fun hw => ⟨fun hall => hw.1 hall.2, hw.2⟩)
        fun found => ?_
      refine Attempt.Ensures.pure fun _ ⟨hfound, hw⟩ => ⟨?_, hw⟩
      rw [hfound]
      simp only [hfirst, true_and]
      split <;> rfl

/-- The answer is what the process gives, if nothing fails. -/
private theorem ensures_examine (process : π) :
    Attempt.Ensures now (probe.examine platform process)
      (fun found w => found = sight.candidate? process ∧ now w ∨ found = none ∧ gone w)
      fun w => gone w ∨ sight.candidate? process = none ∧ now w := by
  unfold probe.examine Sight.candidate?
  refine Attempt.Ensures.bind (Attempt.Ensures.lift (h.hasExited process)) fun exited => ?_
  cases exited with
  | true => exact Attempt.Ensures.bind Attempt.Ensures.report fun _ => Attempt.Ensures.pure fun _ hw => .inr ⟨rfl, hw⟩
  | false =>
  refine Attempt.Ensures.bind ((h.is64Bit process).failed_mono fun _ hw => .inl hw) fun is64Bit =>
    Action.Ensures.of_imp ?_
  rintro rfl
  cases hwide : sight.is64Bit process with
  | true => exact Attempt.Ensures.bind Attempt.Ensures.report fun _ => Attempt.Ensures.pure fun _ hw => .inl ⟨rfl, hw⟩
  | false =>
  refine Attempt.Ensures.bind ((h.moduleBase process).failed_mono fun _ hw => .inl hw) fun moduleBase =>
    Action.Ensures.of_imp ?_
  rintro rfl
  refine Attempt.Ensures.bind ((h.ensures_detectBuild process).failed_mono fun _ hw => .inl hw) fun found =>
    Action.Ensures.of_imp ?_
  rintro rfl
  cases sight.build? process with
  | none => exact Attempt.Ensures.bind Attempt.Ensures.report fun _ => Attempt.Ensures.pure fun _ hw => .inl ⟨rfl, hw⟩
  | some build =>
  have hsnapshots : Attempt.Ensures now (platform.snapshots process build (sight.moduleBase process) Site.all)
      (fun found w => found =
        (if ∀ snapshot ∈ build.snapshots (sight.moduleBase process), sight.Holds process snapshot.code then
          some (build.snapshots (sight.moduleBase process)) else none) ∧ now w)
      fun w => gone w ∨ (¬ ∀ snapshot ∈ build.snapshots (sight.moduleBase process),
        sight.Holds process snapshot.code) ∧ now w :=
    h.ensures_snapshots process build (sight.moduleBase process) Site.all
  simp only [Bool.false_eq_true, ↓reduceIte, Option.bind_some]
  by_cases hall : ∀ snapshot ∈ build.snapshots (sight.moduleBase process), sight.Holds process snapshot.code
  · simp only [if_pos hall] at hsnapshots ⊢
    refine Attempt.Ensures.bind (hsnapshots.failed_mono fun _ hw => hw.imp id fun hw => (hw.1 hall).elim)
      fun found => Action.Ensures.of_imp ?_
    rintro rfl
    exact Attempt.Ensures.pure fun _ hw => .inl ⟨rfl, hw⟩
  · simp only [if_neg hall] at hsnapshots ⊢
    refine Attempt.Ensures.bind (hsnapshots.failed_mono fun _ hw => hw.imp id fun hw => ⟨trivial, hw.2⟩)
      fun found => Action.Ensures.of_imp ?_
    rintro rfl
    exact Attempt.Ensures.pure fun _ hw => .inl ⟨rfl, hw⟩

/-- A process that is not accepted is closed, both where it was seen and where it is gone. -/
theorem ensures_probe (process : π) :
    Attempt.Ensures now (platform.probe process)
      (fun found w => found = sight.candidate? process ∧ now w ∨ found = none ∧ gone w)
      fun w => gone w ∨ sight.candidate? process = none ∧ now w := by
  refine Action.Ensures.bind (h.ensures_examine process) fun result => ?_
  match result with
  | .ok (some candidate) =>
    exact Action.Ensures.bind (Action.Ensures.pure fun _ hw => hw) fun _ => Action.Ensures.pure fun _ hw => hw
  | .ok none =>
    refine Action.Ensures.bind ?_ fun _ => Action.Ensures.pure fun _ hw => hw
    rintro s (⟨hfound, hw⟩ | ⟨-, hw⟩)
    · exact .inl ⟨hfound, h.close process s hw⟩
    · exact .inr ⟨rfl, h.leave process s hw⟩
  | .error failure =>
    refine Action.Ensures.bind ?_ fun _ => Action.Ensures.pure fun _ hw => hw
    rintro s (hw | ⟨hfound, hw⟩)
    · exact .inl (h.leave process s hw)
    · exact .inr ⟨hfound, h.close process s hw⟩

/-! ### Finding -/

section Search

variable (hgone : ∀ w, gone w → now w)
include hgone

private theorem ensures_openAndProbe (info : ProcessInfo) :
    Action.Ensures now (platform.openAndProbe info)
      fun found w => (∀ candidate ∈ found, candidate.Verified sight) ∧ now w := by
  have hprobe : ∀ process, Attempt.Ensures now (platform.probe process)
      (fun found w => (∀ candidate ∈ found, candidate.Verified sight) ∧ now w) now := by
    intro process
    refine (h.ensures_probe process).ends_mono ?_ ?_
    · rintro _ w (⟨rfl, hw⟩ | ⟨rfl, hw⟩)
      · exact ⟨fun candidate hcandidate => (Sight.verified_of_candidate? hcandidate).2, hw⟩
      · exact ⟨nofun, hgone w hw⟩
    · rintro w (hw | ⟨-, hw⟩)
      · exact hgone w hw
      · exact hw
  have hopen := (h.openProcess info).failed_mono hgone
  refine Action.Ensures.bind (Attempt.Ensures.bind hopen hprobe) fun result => ?_
  cases result with
  | ok found => exact Action.Ensures.pure fun _ hw => hw
  | error failure =>
    exact Action.Ensures.bind Action.Ensures.report fun _ => Action.Ensures.pure fun _ hw => ⟨nofun, hw⟩

private theorem ensures_firstCandidate (infos : List ProcessInfo) :
    Action.Ensures now (platform.firstCandidate infos)
      fun found w => (∀ candidate ∈ found, candidate.Verified sight) ∧ now w := by
  induction infos with
  | nil => exact Action.Ensures.pure fun _ hw => ⟨nofun, hw⟩
  | cons info rest ih =>
    refine Action.Ensures.bind (h.ensures_openAndProbe hgone info) fun found => ?_
    cases found with
    | none => exact ih.mono (fun _ hw => hw.2) fun _ _ hw => hw
    | some candidate => exact Action.Ensures.pure fun _ hw => hw

/-- What is found is of a known build and has this build's code at every site. -/
theorem ensures_findTarget (name : String) :
    Action.Ensures now (platform.findTarget name)
      fun found w => (∀ candidate ∈ found, candidate.Verified sight) ∧ now w := by
  refine Action.Ensures.bind (h.processes.failed_mono hgone) fun result => ?_
  cases result with
  | ok infos => exact h.ensures_firstCandidate hgone _
  | error failure =>
    exact Action.Ensures.bind Action.Ensures.report fun _ => Action.Ensures.pure fun _ hw => ⟨nofun, hw⟩

/-! ### Polling -/

theorem looks (process : π) : platform.Looks process now where
  hasExited := by
    refine (h.hasExited process).post_mono fun exited w hw => ?_
    cases exited with
    | true => exact hgone w hw
    | false => exact hw
  is64Bit := (h.is64Bit process).ends_mono (fun _ _ hw => hw.2) hgone
  moduleBase := (h.moduleBase process).ends_mono (fun _ _ hw => hw.2) hgone
  read address n := (h.read process address n).ends_mono (fun _ _ hw => hw.2) hgone

theorem ensures_hasExited (process : π) : Action.Ensures now (platform.hasExited process) fun _ => now :=
  (h.looks hgone process).hasExited

theorem ensures_poll (session : Session π) :
    Action.Ensures now (platform.poll session) fun poll w => session.SameProcess poll.session ∧ now w :=
  (h.looks hgone session.process).ensures_poll

/-! ### Updates -/

variable {engine : Engine π}

theorem ensures_tryAttach {post : Engine π → σ → Prop} (hstays : ∀ w, now w → post engine w)
    (hattach : ∀ candidate, candidate.Verified sight → Attempt.Ensures now (platform.attach candidate)
      (fun session => post { engine with session := some session }) (post engine)) :
    Action.Ensures now (engine.tryAttach platform) post := by
  have hfind := (h.ensures_findTarget hgone engine.config.processName).post_mono fun candidate? w hw =>
    show (candidate? = none → post engine w) ∧ ∀ candidate ∈ candidate?, candidate.Verified sight ∧ now w from
      ⟨fun _ => hstays w hw.2, fun candidate hcandidate => ⟨hw.1 candidate hcandidate, hw.2⟩⟩
  exact Engine.ensures_tryAttach hfind fun candidate => Action.Ensures.of_imp (hattach candidate)

/-- An update of an attached engine is a poll. If it fails, the engine is detached. -/
theorem ensures_update {post : Engine π → σ → Prop}
    (hdetached : engine.session = none → Action.Ensures now (engine.tryAttach platform) post)
    (hpolled : ∀ session session' w, engine.session = some session → session.SameProcess session' → now w →
      post { engine with session := some session' } w)
    (hlost : ∀ session w, engine.session = some session → now w → post { engine with session := none } w) :
    Action.Ensures now (engine.update platform) fun result => post result.1 := by
  unfold Engine.update
  cases hsession : engine.session with
  | none => exact Action.Ensures.bind (hdetached hsession) fun _ => Action.Ensures.pure fun _ hw => hw
  | some session =>
    refine Action.Ensures.bind (h.ensures_poll hgone session) fun poll => Action.Ensures.of_imp fun hsame => ?_
    cases poll.failure with
    | none => exact Action.Ensures.pure fun w hw => hpolled session poll.session w hsession hsame hw
    | some failure =>
      refine Action.Ensures.bind Action.Ensures.report fun _ =>
        Action.Ensures.bind (h.close session.process) fun _ => ?_
      exact Action.Ensures.pure fun w hw => hlost session w hsession hw

end Search

end Platform.Quiet

end LoadRemover
