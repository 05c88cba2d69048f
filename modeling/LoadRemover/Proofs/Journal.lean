import LoadRemover.Proofs.Erasing

/-!
# Accesses on a list

What an action does to the outside shows in the accesses that it makes, in their order, each with its result.
`Journal.platform` works like the platform beneath it and writes them down; what is done over it goes as it would
without (`Journal.erases`). So it can be said which accesses an action makes (`Platform.accesses`), and that none of
them fails: then a process that gives a candidate is found and can be patched (`Platform.Quiet.attachable`).
-/

namespace LoadRemover

variable {σ π α : Type}

/-- An access to a process, or to the list of processes, and its result. -/
inductive Access where
  | processes (result : Except Failure (List ProcessInfo))
  | openProcess (info : ProcessInfo) (result : Except Failure Unit)
  | close
  | hasExited (answer : Bool)
  | is64Bit (result : Except Failure Bool)
  | moduleBase (result : Except Failure UInt32)
  | read (address : UInt32) (n : Nat) (result : Except Failure Bytes)
  | write (address : UInt32) (bytes : Bytes) (result : Except Failure Unit)
  | allocate (size : Nat) (result : Except Failure UInt32)
  | free (address : UInt32) (result : Except Failure Unit)
deriving DecidableEq

/-- Whether the access meets no failure. A process is reported to live, and a block has an address for code. -/
def Access.succeeds : Access → Bool
  | processes result => result.isOk
  | openProcess _ result => result.isOk
  | close => true
  | hasExited answer => !answer
  | is64Bit result => result.isOk
  | moduleBase result => result.isOk
  | read _ _ result => result.isOk
  | write _ _ result => result.isOk
  | allocate _ (.ok base) => base != Code.unplaced
  | allocate _ (.error _) => false
  | free _ result => result.isOk

/-- A world and the accesses made so far, oldest first. -/
structure Journal (σ : Type) where
  world : σ
  accesses : List Access := []

namespace Journal

def noted (describe : α → Access) (action : Action σ α) : Action (Journal σ) α := do
  let a ← action.within (·.world) fun world s => { s with world }
  .onWorld fun s => ((), { s with accesses := s.accesses ++ [describe a] })
  return a

def attempted (describe : Except Failure α → Access) (attempt : Attempt σ α) : Attempt (Journal σ) α :=
  ExceptT.mk (noted describe attempt.outcome)

/-- The platform that writes down all accesses. -/
def platform (inner : Platform σ π) : Platform (Journal σ) π where
  processes := attempted .processes inner.processes
  openProcess info := attempted (fun result => .openProcess info (result.map fun _ => ())) (inner.openProcess info)
  close process := noted (fun _ => .close) (inner.close process)
  pid := inner.pid
  hasExited process := noted .hasExited (inner.hasExited process)
  is64Bit process := attempted .is64Bit (inner.is64Bit process)
  moduleBase process := attempted .moduleBase (inner.moduleBase process)
  read process address n := attempted (.read address n) (inner.read process address n)
  write process address bytes := attempted (.write address bytes) (inner.write process address bytes)
  allocate process size := attempted (.allocate size) (inner.allocate process size)
  free process address := attempted (.free address) (inner.free process address)

theorem erases (inner : Platform σ π) : (platform inner).Erases (·.world) inner where
  processes _ := rfl
  openProcess _ _ := rfl
  close _ _ := rfl
  pid := rfl
  hasExited _ _ := rfl
  is64Bit _ _ := rfl
  moduleBase _ _ := rfl
  read _ _ _ _ := rfl
  write _ _ _ _ := rfl
  allocate _ _ _ := rfl
  free _ _ _ := rfl

/-- Nothing is written down yet. -/
def start (s : Traced σ) : Traced (Journal σ) := ⟨⟨s.world, []⟩, s.log⟩

/-! ### Rules -/

theorem ensures_noted {describe : α → Access} {action : Action σ α} {pre : List Access → σ → Prop}
    {post : α → List Access → σ → Prop}
    (h : ∀ accesses, Action.Ensures (pre accesses) action fun a => post a (accesses ++ [describe a])) :
    Action.Ensures (fun s => pre s.accesses s.world) (noted describe action) fun a s => post a s.accesses s.world :=
  fun s hs => h s.world.accesses ⟨s.world.world, s.log⟩ hs

theorem ensures_attempted {describe : Except Failure α → Access} {attempt : Attempt σ α}
    {pre : List Access → σ → Prop} {post : α → List Access → σ → Prop} {failed : List Access → σ → Prop}
    (h : ∀ accesses, Attempt.Ensures (pre accesses) attempt (fun a => post a (accesses ++ [describe (.ok a)])) fun w =>
      ∀ failure, failed (accesses ++ [describe (.error failure)]) w) :
    Attempt.Ensures (fun s => pre s.accesses s.world) (attempted describe attempt)
      (fun a s => post a s.accesses s.world) fun s => failed s.accesses s.world := by
  intro s hs
  have hresult := h s.world.accesses ⟨s.world.world, s.log⟩ hs
  have hnoted : (attempted describe attempt).outcome s =
      let outcome := attempt.outcome ⟨s.world.world, s.log⟩
      (outcome.1, ⟨⟨outcome.2.world, s.world.accesses ++ [describe outcome.1]⟩, outcome.2.log⟩) := rfl
  rw [hnoted]
  generalize attempt.outcome ⟨s.world.world, s.log⟩ = outcome at hresult ⊢
  obtain ⟨result, after⟩ := outcome
  cases result with
  | ok a => exact hresult
  | error failure => exact hresult failure

/-- Some access has failed. -/
def Failed (s : Journal σ) : Prop := ∃ access ∈ s.accesses, access.succeeds = false

section Growing

variable {holds : List Access → Prop} (hgrows : ∀ accesses access, holds accesses → holds (accesses ++ [access]))
include hgrows

/-- What holds of a list of accesses and of all longer ones keeps holding. -/
private theorem growing_noted (describe : α → Access) (action : Action σ α) :
    Action.Ensures (fun s => holds s.accesses) (noted describe action) fun _ s => holds s.accesses :=
  @ensures_noted _ _ describe action (fun accesses _ => holds accesses) (fun _ accesses _ => holds accesses)
    fun accesses _ hs => hgrows accesses _ hs

private theorem growing_attempted (describe : Except Failure α → Access) (attempt : Attempt σ α) :
    Attempt.Ensures (fun s => holds s.accesses) (attempted describe attempt) (fun _ s => holds s.accesses)
      fun s => holds s.accesses := by
  refine (growing_noted hgrows describe attempt.outcome).post_mono fun result s hs => ?_
  cases result <;> exact hs

theorem confined_growing (inner : Platform σ π) (process : π) :
    (platform inner).Confined process fun s => holds s.accesses where
  close := growing_noted hgrows _ _
  hasExited := growing_noted hgrows _ _
  write _ _ := growing_attempted hgrows _ _
  allocate _ := growing_attempted hgrows _ _
  free _ := growing_attempted hgrows _ _

end Growing

/-- A failure stays on the list. -/
private theorem failed_concat (accesses : List Access) (access : Access) :
    (∃ access' ∈ accesses, access'.succeeds = false) → ∃ access' ∈ accesses ++ [access], access'.succeeds = false :=
  fun ⟨access', haccess', hfails⟩ => ⟨access', List.mem_append_left _ haccess', hfails⟩

theorem failed_noted (describe : α → Access) (action : Action σ α) :
    Action.Ensures Failed (noted describe action) fun _ => Failed :=
  growing_noted failed_concat describe action

theorem failed_attempted (describe : Except Failure α → Access) (attempt : Attempt σ α) :
    Attempt.Ensures Failed (attempted describe attempt) (fun _ => Failed) Failed :=
  growing_attempted failed_concat describe attempt

private theorem confined_failed (inner : Platform σ π) (process : π) : (platform inner).Confined process Failed :=
  confined_growing failed_concat inner process

private theorem failed_of_access (accesses : List Access) {access : Access} (h : access.succeeds = false) :
    ∃ access' ∈ accesses ++ [access], access'.succeeds = false :=
  ⟨access, List.mem_append_right _ (List.mem_singleton_self _), h⟩

/-- An access that returns does what it does beneath; if it fails, the failure is on the list. -/
theorem ensures_listed {describe : Except Failure α → Access} {attempt : Attempt σ α} {pre : σ → Prop}
    {post : α → σ → Prop} (h : Attempt.Ensures pre attempt post fun _ => True)
    (hfails : ∀ failure, (describe (.error failure)).succeeds = false) :
    Attempt.Ensures (fun s => pre s.world) (attempted describe attempt)
      (fun a s => post a s.world ∧ ((describe (.ok a)).succeeds = false → Failed s)) Failed :=
  @ensures_attempted _ _ describe attempt (fun _ => pre)
    (fun a accesses w => post a w ∧
      ((describe (.ok a)).succeeds = false → ∃ access ∈ accesses, access.succeeds = false))
    (fun accesses _ => ∃ access ∈ accesses, access.succeeds = false) fun accesses =>
    h.ends_mono (fun _ _ hw => ⟨hw, failed_of_access accesses⟩)
      fun _ _ failure => failed_of_access accesses (hfails failure)

/-- What a quiet platform shows can be seen with a list of accesses as well, if none of them fails. -/
theorem quiet {inner : Platform σ π} {sight : Sight π} {now gone : σ → Prop} (h : inner.Quiet sight now gone) :
    (platform inner).Quiet sight (fun s => now s.world) Failed := by
  have hlook : ∀ {α : Type} (describe : Except Failure α → Access) {attempt : Attempt σ α} {post : α → σ → Prop},
      Attempt.Ensures now attempt post gone → (∀ failure, (describe (.error failure)).succeeds = false) →
      Attempt.Ensures (fun s : Journal σ => now s.world) (attempted describe attempt) (fun a s => post a s.world)
        Failed :=
    fun describe _ _ hattempt hfails =>
      (ensures_listed (hattempt.failed_mono fun _ _ => trivial) hfails).post_mono fun _ _ hs => hs.1
  refine ⟨hlook _ h.processes fun _ => rfl, fun info => hlook _ (h.openProcess info) fun _ => rfl, fun process => ?_,
    fun process => failed_noted _ _, fun process => ?_, fun process => hlook _ (h.is64Bit process) fun _ => rfl,
    fun process => hlook _ (h.moduleBase process) fun _ => rfl,
    fun process a n => hlook _ (h.read process a n) fun _ => rfl⟩
  · exact @ensures_noted _ _ (fun _ => .close) _ (fun _ => now) (fun _ _ => now) fun _ => h.close process
  · intro s hs
    have hanswer := h.hasExited process ⟨s.world.world, s.log⟩ hs
    have hresult : ((platform inner).hasExited process s).1 = (inner.hasExited process ⟨s.world.world, s.log⟩).1 := rfl
    rw [hresult]
    cases hexited : (inner.hasExited process ⟨s.world.world, s.log⟩).1 with
    | true =>
      have hfails : (Access.hasExited (inner.hasExited process ⟨s.world.world, s.log⟩).1).succeeds = false := by
        rw [hexited]
        rfl
      exact failed_of_access s.world.accesses hfails
    | false =>
      rw [hexited] at hanswer
      exact hanswer

/-- As long as no access fails, a quiet platform shows what can be seen. -/
private theorem quiet_clean {inner : Platform σ π} {sight : Sight π} {now gone : σ → Prop}
    (h : inner.Quiet sight now gone) :
    (platform inner).Quiet sight (fun s => (∀ access ∈ s.accesses, access.succeeds = true) ∧ now s.world)
      fun _ => True := by
  let clean (accesses : List Access) : Prop := ∀ access ∈ accesses, access.succeeds = true
  have hgrows : ∀ {accesses access}, clean accesses → access.succeeds = true → clean (accesses ++ [access]) :=
    fun haccesses haccess => List.forall_mem_append.2 ⟨haccesses, List.forall_mem_singleton.2 haccess⟩
  have hlook : ∀ {α : Type} {describe : Except Failure α → Access} {attempt : Attempt σ α} {post : α → σ → Prop},
      Attempt.Ensures now attempt post gone → (∀ a, (describe (.ok a)).succeeds = true) →
      Attempt.Ensures (fun s : Journal σ => clean s.accesses ∧ now s.world) (attempted describe attempt)
        (fun a s => clean s.accesses ∧ post a s.world) fun _ => True := by
    intro α describe attempt post hattempt hsucceeds
    refine @ensures_attempted _ _ describe attempt (fun accesses w => clean accesses ∧ now w)
      (fun a accesses w => clean accesses ∧ post a w) (fun _ _ => True) fun accesses =>
        Action.Ensures.of_imp fun hclean => ?_
    exact hattempt.ends_mono (fun a _ hw => ⟨hgrows hclean (hsucceeds a), hw⟩) fun _ _ _ => trivial
  refine ⟨hlook h.processes fun _ => rfl, fun info => hlook (h.openProcess info) fun _ => rfl, fun process => ?_,
    fun _ => .trivial, fun process => ?_,
    fun process => (hlook (h.is64Bit process) fun _ => rfl).post_mono fun _ _ hs => ⟨hs.2.1, hs.1, hs.2.2⟩,
    fun process => (hlook (h.moduleBase process) fun _ => rfl).post_mono fun _ _ hs => ⟨hs.2.1, hs.1, hs.2.2⟩,
    fun process a n => (hlook (h.read process a n) fun _ => rfl).post_mono fun _ _ hs => ⟨hs.2.1, hs.1, hs.2.2⟩⟩
  · exact @ensures_noted _ _ (fun _ => .close) _ (fun accesses w => clean accesses ∧ now w)
      (fun _ accesses w => clean accesses ∧ now w) fun _ =>
        Action.Ensures.of_imp fun hclean => (h.close process).post_mono fun _ _ hw => ⟨hgrows hclean rfl, hw⟩
  · have hexited := @ensures_noted _ _ .hasExited _ (fun accesses w => clean accesses ∧ now w)
      (fun exited accesses w => exited = false → clean accesses ∧ now w) fun _ =>
        Action.Ensures.of_imp fun hclean => (h.hasExited process).post_mono fun exited _ hw hlives => by
          subst hlives
          exact ⟨hgrows hclean rfl, hw⟩
    refine hexited.post_mono fun exited _ hs => ?_
    cases exited with
    | true => trivial
    | false => exact hs rfl

/-- Patching code that has an address fails only if an access fails. -/
private theorem ensures_attach (inner : Platform σ π) {candidate : Candidate π}
    (hplaced : ∀ snapshot ∈ candidate.snapshots, snapshot.code.isPlaced = true) :
    Attempt.Ensures (fun _ => True) ((platform inner).attach candidate) (fun _ _ => True) Failed := by
  have hconfined := confined_failed inner candidate.process
  have hwrite : ∀ {pre : Journal σ → Prop} address bytes,
      Attempt.Ensures pre ((platform inner).write candidate.process address bytes) (fun _ _ => True) Failed :=
    fun address bytes => (ensures_listed (@Attempt.Ensures.trivial _ _ (fun _ => True) _) fun _ => rfl).mono
      (fun _ _ => trivial) (fun _ _ _ => trivial) fun _ hs => hs
  -- a block without an address counts as a failure
  have hallocate : Attempt.Ensures (fun _ => True)
      ((platform inner).allocate candidate.process (Head.build candidate.snapshots).code.size)
      (fun base s => base = Code.unplaced → Failed s) Failed := by
    refine (ensures_listed (@Attempt.Ensures.trivial _ _ (fun _ => True) _) fun _ => rfl).mono (fun _ _ => trivial)
      (fun base _ hs hbase => hs.2 ?_) fun _ hs => hs
    rw [hbase]
    rfl
  refine (Platform.ensures_attach (fun base s => base = Code.unplaced → Failed s) (fun _ => Failed)
    (fun _ _ _ => True) (fun _ _ => Failed) hallocate (fun _ => hwrite _ _) (fun base hunplaced w hw => hw ?_)
    (fun _ => hconfined.free _) (fun _ _ _ _ _ => hwrite _ _) (fun _ done pair rest hpairs hunplaced => ?_)
    (fun _ _ _ _ _ => hconfined.ensures_rollback _ _) hconfined.close).post_mono fun _ _ _ => trivial
  · have hbase : (Head.placed candidate.snapshots base).code.base = base := rfl
    rw [Code.isPlaced, hbase] at hunplaced
    simpa using hunplaced
  · rw [hplaced _ (Head.mem_of_pairs hpairs)] at hunplaced
    cases hunplaced

end Journal

/-! ### Accesses of an action -/

/-- The accesses that an action over a platform makes. -/
def Platform.accesses (platform : Platform σ π) (action : ∀ {τ : Type}, Platform τ π → Action τ α) (s : Traced σ) :
    List Access :=
  (action (Journal.platform platform) (Journal.start s)).2.world.accesses

/-- The process is found and can be patched, if no access fails. -/
def Platform.Attachable (platform : Platform σ π) (process : π) (s : Traced σ) : Prop :=
  (∀ access ∈ platform.accesses (fun platform => (platform.probe process).outcome) s, access.succeeds = true) →
    ∃ candidate, ((platform.probe process).outcome s).1 = .ok (some candidate) ∧ candidate.process = process ∧
      ((∀ access ∈ platform.accesses (fun platform => (platform.attach candidate).outcome)
          ((platform.probe process).outcome s).2, access.succeeds = true) →
        ∃ session, ((platform.attach candidate).outcome ((platform.probe process).outcome s).2).1 = .ok session)

/-- No access has failed by which a process came to be accepted. -/
theorem Platform.Quiet.succeeds_of_probe {platform : Platform σ π} {sight : Sight π} {now gone : σ → Prop}
    (h : platform.Quiet sight now gone) {process : π} {candidate : Candidate π} {s : Traced σ} (hs : now s.world)
    (haccepted : ((platform.probe process).outcome s).1 = .ok (some candidate)) :
    ∀ access ∈ platform.accesses (fun platform => (platform.probe process).outcome) s, access.succeeds = true := by
  have hprobe := (Journal.quiet_clean h).ensures_probe process (Journal.start s) ⟨nofun, hs⟩
  have hsame : (((Journal.platform platform).probe process).outcome (Journal.start s)).1 = .ok (some candidate) := by
    rw [← haccepted, show (platform.probe process).outcome s = _ from
      (Journal.erases platform).probe process (Journal.start s)]
  rw [hsame] at hprobe
  rcases hprobe with ⟨-, hclean, -⟩ | ⟨hnone, -⟩
  · exact hclean
  · cases hnone

theorem Journal.not_failed {s : Journal σ} (h : ∀ access ∈ s.accesses, access.succeeds = true) : ¬ s.Failed := by
  rintro ⟨access, haccess, hfails⟩
  rw [h access haccess] at hfails
  cases hfails

theorem Platform.Quiet.attachable {platform : Platform σ π} {sight : Sight π} {now gone : σ → Prop}
    (h : platform.Quiet sight now gone) {process : π} {candidate : Candidate π}
    (hcandidate : sight.candidate? process = some candidate) {s : Traced σ} (hs : now s.world) :
    platform.Attachable process s := by
  intro hprobed
  obtain ⟨hprocess, hverified⟩ := Sight.verified_of_candidate? hcandidate
  have hfound : ((platform.probe process).outcome s).1 = .ok (some candidate) := by
    have hprobe := (Journal.quiet h).ensures_probe process (Journal.start s) hs
    rw [show (platform.probe process).outcome s = _ from (Journal.erases platform).probe process (Journal.start s)]
    have hclean := Journal.not_failed hprobed
    cases hresult : (((Journal.platform platform).probe process).outcome (Journal.start s)).1 with
    | ok found =>
      simp only [hresult] at hprobe
      rcases hprobe with ⟨rfl, -⟩ | ⟨-, hfailed⟩
      · exact congrArg Except.ok hcandidate
      · exact absurd hfailed hclean
    | error failure =>
      simp only [hresult, hcandidate] at hprobe
      rcases hprobe with hfailed | ⟨hnone, -⟩
      · exact absurd hfailed hclean
      · cases hnone
  refine ⟨candidate, hfound, hprocess, fun hattached => ?_⟩
  have hattach := Journal.ensures_attach platform (fun snapshot hsnapshot => (hverified.code snapshot hsnapshot).1)
    (Journal.start ((platform.probe process).outcome s).2) trivial
  rw [show (platform.attach candidate).outcome ((platform.probe process).outcome s).2 = _ from
    (Journal.erases platform).attach candidate (Journal.start ((platform.probe process).outcome s).2)]
  have hclean := Journal.not_failed hattached
  cases hresult : (((Journal.platform platform).attach candidate).outcome
      (Journal.start ((platform.probe process).outcome s).2)).1 with
  | ok session => exact ⟨session, rfl⟩
  | error failure =>
    simp only [hresult] at hattach
    exact absurd hattach hclean

end LoadRemover
