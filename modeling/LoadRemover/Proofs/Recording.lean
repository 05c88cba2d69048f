import LoadRemover.Proofs.Finding
import LoadRemover.Target.Faults

/-!
# Worlds on record

To speak of every moment of a run, also in the middle of a call, the worlds are put on record: `Recorded.platform`
works like the platform beneath it and keeps the world that each operation has found. The rules lift conditions on
single operations from a platform to the platform on top of it, on which failures are injected and worlds are
recorded: if every operation moves its world along a link, then all worlds on record are linked in a chain.
-/

namespace LoadRemover

variable {σ π α : Type}

/-- A world, and the worlds before it, latest first. -/
structure Recorded (σ : Type) where
  world : σ
  past : List σ := []

namespace Recorded

def worlds (s : Recorded σ) : List σ := s.world :: s.past

def next (s : Recorded σ) (world : σ) : Recorded σ := ⟨world, s.worlds⟩

def noted (action : Action σ α) : Action (Recorded σ) α := action.within (·.world) fun world s => s.next world

def attempted (attempt : Attempt σ α) : Attempt (Recorded σ) α := ExceptT.mk (noted attempt.outcome)

/-- The platform that records the world before each operation. -/
def platform (inner : Platform σ π) : Platform (Recorded σ) π where
  processes := attempted inner.processes
  openProcess info := attempted (inner.openProcess info)
  close process := noted (inner.close process)
  pid := inner.pid
  hasExited process := noted (inner.hasExited process)
  is64Bit process := attempted (inner.is64Bit process)
  moduleBase process := attempted (inner.moduleBase process)
  read process address n := attempted (inner.read process address n)
  write process address bytes := attempted (inner.write process address bytes)
  allocate process size := attempted (inner.allocate process size)
  free process address := attempted (inner.free process address)

end Recorded

/-! ### Lifting conditions -/

section Lift

variable {pre failed : σ → Prop} {post : α → σ → Prop} {link : σ → σ → Prop}

/-- Started in a world with `pre`, the action moves it along the link, to a world with `post`. -/
def Action.Moves (link : σ → σ → Prop) (pre : σ → Prop) (action : Action σ α) (post : α → σ → Prop) : Prop :=
  ∀ w, pre w → Action.Ensures (· = w) action fun a w' => post a w' ∧ link w w'

/-- Started in a world with `pre`, the attempt moves it along the link, to a world with `post` or, if it fails, with
`failed`. -/
def Attempt.Moves (link : σ → σ → Prop) (pre : σ → Prop) (attempt : Attempt σ α) (post : α → σ → Prop)
    (failed : σ → Prop) : Prop :=
  Action.Moves link pre attempt.outcome fun
    | .ok a => post a
    | .error _ => failed

theorem Attempt.moves_iff {attempt : Attempt σ α} : Attempt.Moves link pre attempt post failed ↔
    ∀ w, pre w →
      Attempt.Ensures (· = w) attempt (fun a w' => post a w' ∧ link w w') fun w' => failed w' ∧ link w w' := by
  constructor
  all_goals
    intro h w hw
    refine Action.Ensures.post_mono (h w hw) fun result w' hw' => ?_
    cases result <;> exact hw'

namespace Faulty

private theorem ensures_beneath {action : Action σ α} (h : Action.Ensures pre action post) :
    Action.Ensures (fun s => pre s.world) (beneath action) fun a s => post a s.world :=
  fun s hs => h ⟨s.world.world, s.log⟩ hs

theorem ensures_beneath_run {attempt : Attempt σ α} (h : Attempt.Ensures pre attempt post failed) :
    Attempt.Ensures (fun s : Faulty σ => pre s.world) (ExceptT.mk (beneath attempt.run)) (fun a s => post a s.world)
      fun s => failed s.world := by
  refine (ensures_beneath h).post_mono fun result s hs => ?_
  cases result <;> exact hs

/-- An operation may fail on schedule, without doing anything. -/
theorem ensures_guarded {attempt : Attempt σ α} (h : Attempt.Ensures pre attempt post failed)
    (hfailed : ∀ w, pre w → failed w) (pid : UInt32) (operation : Operation) :
    Attempt.Ensures (fun s : Faulty σ => pre s.world) (guarded pid operation attempt) (fun a s => post a s.world)
      fun s => failed s.world := by
  have hcheck : Action.Ensures (fun s : Faulty σ => pre s.world) (check pid operation) fun _ s => pre s.world :=
    Action.Ensures.onWorld fun _ hw => hw
  refine Action.Ensures.bind hcheck fun met => ?_
  cases met with
  | some failure => exact Action.Ensures.pure fun s hs => hfailed s.world hs
  | none => exact ensures_beneath_run h

theorem moves_guarded {attempt : Attempt σ α} (h : Attempt.Moves link pre attempt post failed)
    (hfailed : ∀ w, pre w → failed w ∧ link w w) (pid : UInt32) (operation : Operation) :
    Attempt.Moves (fun s s' : Faulty σ => link s.world s'.world) (fun s => pre s.world) (guarded pid operation attempt)
      (fun a s => post a s.world) fun s => failed s.world := by
  refine Attempt.moves_iff.2 fun s hs => ?_
  have hguarded :=
    ensures_guarded (Attempt.moves_iff.1 h s.world hs) (fun w hw => hw ▸ hfailed s.world hs) pid operation
  exact hguarded.mono (fun s' hs' => congrArg Faulty.world hs') (fun _ _ hs' => hs') fun _ hs' => hs'

theorem ensures_hasExited {inner : Platform σ π} {process : π}
    (h : Action.Ensures pre (inner.hasExited process) fun _ => pre) :
    Action.Ensures (fun s : Faulty σ => pre s.world) ((platform inner).hasExited process) fun _ s => pre s.world := by
  have hcheck : Action.Ensures (fun s : Faulty σ => pre s.world) (check (inner.pid process) .hasExited)
      fun _ s => pre s.world := Action.Ensures.onWorld fun _ hw => hw
  refine Action.Ensures.bind hcheck fun met => ?_
  cases met with
  | some failure => exact Action.Ensures.pure fun _ hs => hs
  | none => exact ensures_beneath h

end Faulty

/-- Looking is quiet with injected failures, if it is so without. -/
theorem Platform.Quiet.faulty {inner : Platform σ π} {sight : Sight π} {now : σ → Prop}
    (h : inner.Quiet sight now now) :
    (Faulty.platform inner).Quiet sight (fun s => now s.world) fun s => now s.world := by
  have hkept : ∀ w, now w → now w := fun _ hw => hw
  have hclose := fun process => Faulty.ensures_beneath (h.close process)
  refine ⟨?_, ?_, hclose, hclose, ?_, ?_, ?_, ?_⟩
  · exact Faulty.ensures_beneath_run h.processes
  · exact fun info => Faulty.ensures_guarded (h.openProcess info) hkept info.pid .openProcess
  · intro process
    simp only [ite_self]
    exact Faulty.ensures_hasExited (h.ensures_hasExited hkept process)
  · exact fun process => Faulty.ensures_guarded (h.is64Bit process) hkept (inner.pid process) .is64Bit
  · exact fun process => Faulty.ensures_guarded (h.moduleBase process) hkept (inner.pid process) .moduleBase
  · exact fun process a n => Faulty.ensures_guarded (h.read process a n) hkept (inner.pid process) .read

theorem Platform.Confined.faulty {inner : Platform σ π} {process : π} {now : σ → Prop}
    (h : inner.Confined process now) : (Faulty.platform inner).Confined process fun s => now s.world where
  close := Faulty.ensures_beneath h.close
  hasExited := Faulty.ensures_hasExited h.hasExited
  write address bytes := Faulty.ensures_guarded (h.write address bytes) (fun _ hw => hw) (inner.pid process) .write
  allocate size := Faulty.ensures_guarded (h.allocate size) (fun _ hw => hw) (inner.pid process) .allocate
  free address := Faulty.ensures_guarded (h.free address) (fun _ hw => hw) (inner.pid process) .free

namespace Recorded

/-- The world satisfies `now`, and every world so far has been reached along a link from the one before it. -/
def Seen (link : σ → σ → Prop) (now : σ → Prop) (s : Recorded σ) : Prop :=
  now s.world ∧ s.worlds.IsChain fun after before => link before after

theorem Seen.mono {now now' : σ → Prop} {s : Recorded σ} (h : Seen link now s) (hnow : ∀ w, now w → now' w) :
    Seen link now' s :=
  ⟨hnow _ h.1, h.2⟩

private theorem Seen.next {now now' : σ → Prop} {s : Recorded σ} (h : Seen link now s) {world : σ} (hnow : now' world)
    (hlink : link s.world world) : Seen link now' (s.next world) :=
  ⟨hnow, List.isChain_cons_cons.2 ⟨hlink, h.2⟩⟩

theorem ensures_noted {action : Action σ α} (h : Action.Moves link pre action post) :
    Action.Ensures (Seen link pre) (noted action) fun a => Seen link (post a) := by
  intro s hs
  obtain ⟨hpost, hlink⟩ := h s.world.world hs.1 ⟨s.world.world, s.log⟩ rfl
  exact hs.next hpost hlink

theorem ensures_attempted {attempt : Attempt σ α} (h : Attempt.Moves link pre attempt post failed) :
    Attempt.Ensures (Seen link pre) (attempted attempt) (fun a => Seen link (post a)) (Seen link failed) := by
  refine (ensures_noted h).post_mono fun result s hs => ?_
  cases result <;> exact hs

private theorem ensures_noted_world {action : Action σ α} (h : Action.Ensures pre action post) :
    Action.Ensures (fun s : Recorded σ => pre s.world) (noted action) fun a s => post a s.world :=
  fun s hs => h ⟨s.world.world, s.log⟩ hs

private theorem ensures_attempted_world {attempt : Attempt σ α} (h : Attempt.Ensures pre attempt post failed) :
    Attempt.Ensures (fun s : Recorded σ => pre s.world) (attempted attempt) (fun a s => post a s.world)
      fun s => failed s.world := by
  refine (ensures_noted_world h).post_mono fun result s hs => ?_
  cases result <;> exact hs

/-! ### Looking with injected failures, on record -/

section Quiet

variable {now : σ → Prop} (hlink : ∀ w w', now w → now w' → link w w')
include hlink

private theorem ensures_noted_quiet {action : Action σ α} (h : Action.Ensures now action fun _ => now) :
    Action.Ensures (Seen link now) (noted action) fun _ => Seen link now := by
  refine ensures_noted fun w hw => h.mono (fun w' hw' => ?_) fun _ w' hw' => ⟨hw', hlink w w' hw hw'⟩
  rw [hw']
  exact hw

private theorem ensures_attempted_known {attempt : Attempt σ α} {known : α → Prop}
    (h : Attempt.Ensures now attempt (fun a w => known a ∧ now w) now) :
    Attempt.Ensures (Seen link now) (attempted attempt) (fun a s => known a ∧ Seen link now s) (Seen link now) := by
  have hmoves : Attempt.Moves link now attempt (fun a w => known a ∧ now w) now := by
    refine Attempt.moves_iff.2 fun w hw => h.mono (fun w' hw' => ?_) (fun _ w' hw' => ⟨hw', hlink w w' hw hw'.2⟩)
      fun w' hw' => ⟨hw', hlink w w' hw hw'⟩
    rw [hw']
    exact hw
  exact (ensures_attempted hmoves).post_mono fun _ _ hs => ⟨hs.1.1, hs.1.2, hs.2⟩

private theorem ensures_attempted_quiet {attempt : Attempt σ α} (h : Attempt.Ensures now attempt (fun _ => now) now) :
    Attempt.Ensures (Seen link now) (attempted attempt) (fun _ => Seen link now) (Seen link now) := by
  have htrue : Attempt.Ensures now attempt (fun _ w => True ∧ now w) now :=
    h.post_mono fun _ _ hw => ⟨trivial, hw⟩
  exact (ensures_attempted_known hlink htrue).post_mono fun _ _ hs => hs.2

end Quiet

end Recorded

/-- Looking is quiet on record, if it is so without. -/
theorem Platform.Quiet.recorded {inner : Platform σ π} {sight : Sight π} {now : σ → Prop}
    (h : inner.Quiet sight now now) (hlink : ∀ w w', now w → now w' → link w w') :
    (Recorded.platform inner).Quiet sight (Recorded.Seen link now) (Recorded.Seen link now) := by
  have hclose := fun process => Recorded.ensures_noted_quiet hlink (h.close process)
  refine ⟨?_, ?_, hclose, hclose, ?_, ?_, ?_, ?_⟩
  · exact Recorded.ensures_attempted_quiet hlink h.processes
  · exact fun info => Recorded.ensures_attempted_quiet hlink (h.openProcess info)
  · intro process
    simp only [ite_self]
    exact Recorded.ensures_noted_quiet hlink (h.ensures_hasExited (fun _ hw => hw) process)
  · exact fun process => Recorded.ensures_attempted_known hlink (h.is64Bit process)
  · exact fun process => Recorded.ensures_attempted_known hlink (h.moduleBase process)
  · exact fun process a n => Recorded.ensures_attempted_known hlink (h.read process a n)

theorem Platform.Confined.recorded {inner : Platform σ π} {process : π} {now : σ → Prop}
    (h : inner.Confined process now) : (Recorded.platform inner).Confined process fun s => now s.world where
  close := Recorded.ensures_noted_world h.close
  hasExited := Recorded.ensures_noted_world h.hasExited
  write address bytes := Recorded.ensures_attempted_world (h.write address bytes)
  allocate size := Recorded.ensures_attempted_world (h.allocate size)
  free address := Recorded.ensures_attempted_world (h.free address)

end Lift

end LoadRemover
