import LoadRemover.Proofs.Journal

/-!
# What a process answers

A process is examined by questions: whether it has exited, whether it is of 64 bits, where its module lies, and what
its memory holds at a few addresses. A `View` answers every question in one way only, if need be with a failure.

A view can be examined without a process. Its `View.checks` are made in their order and the first `Obstacle` among them
decides (`View.met?_examine`); if there is none, the candidate is the one that the view `View.Accepts`
(`View.accepts_of_examine`, `View.Accepts.examine_eq`). A probe of a process whose answers are all those of a view gives
what the view gives (`View.tells_probe`).
-/

namespace LoadRemover

variable {σ π α β : Type}

/-- Builds are told apart by their signatures. -/
theorem Build.ofSignature?_eq_some {signature : UInt32} {build : Build} :
    ofSignature? signature = some build ↔ build ∈ known ∧ signature = build.signature := by
  have hapart : retail.signature ≠ steam.signature := by decide
  constructor
  · intro h
    exact ⟨List.mem_of_find?_eq_some h, (of_decide_eq_true (List.find?_some h :)).symm⟩
  · rintro ⟨hknown, rfl⟩
    rcases List.mem_pair.1 hknown with rfl | rfl
    · exact List.find?_cons_of_pos (decide_eq_true rfl)
    · exact (List.find?_cons_of_neg (by simpa using hapart)).trans (List.find?_cons_of_pos (decide_eq_true rfl))

/-- What succeeds in two steps has succeeded in both. -/
private theorem Failure.exists_of_bind {result : Except Failure α} {f : α → Except Failure β} {b : β}
    (h : result >>= f = .ok b) : ∃ a, result = .ok a ∧ f a = .ok b := by
  cases result with
  | error failure => cases h
  | ok a => exact ⟨a, rfl, h⟩

/-! ### What a process answers -/

/-- What a process answers to the questions by which it is examined. -/
structure View where
  exited : Bool
  is64Bit : Except Failure Bool
  moduleBase : Except Failure UInt32
  read : UInt32 → Nat → Except Failure Bytes

/-- The answer that the access has got, if it is a question, is that of the view. -/
def Access.Agrees (view : View) : Access → Prop
  | .hasExited answer => answer = view.exited
  | .is64Bit result => result = view.is64Bit
  | .moduleBase result => result = view.moduleBase
  | .read address n result => result = view.read address n
  | _ => True

/-- Why a process is not accepted. -/
inductive Obstacle where
  /-- An access has failed, or there is no address to look at. -/
  | failing (failure : Failure)
  /-- The answer is not the one that is asked for. -/
  | refusing
deriving DecidableEq

/-- The obstacle that a check is, unless it is passed. -/
def Obstacle.of? : Except Failure Bool → Option Obstacle
  | .ok true => none
  | .ok false => some .refusing
  | .error failure => some (.failing failure)

/-- The obstacle that an examination has met, unless it has found something. -/
def Obstacle.met? (result : Except Failure (Option α)) : Option Obstacle := of? (result.map Option.isSome)

private theorem Obstacle.of?_eq_none {check : Except Failure Bool} : of? check = none ↔ check = .ok true := by
  match check with
  | .ok true => exact iff_of_true rfl rfl
  | .ok false => exact iff_of_false nofun nofun
  | .error _ => exact iff_of_false nofun nofun

private theorem Obstacle.met?_eq_none {result : Except Failure (Option α)} :
    met? result = none ↔ ∃ a, result = .ok (some a) := by
  match result with
  | .ok none => exact iff_of_false nofun nofun
  | .ok (some a) => exact iff_of_true rfl ⟨a, rfl⟩
  | .error _ => exact iff_of_false nofun nofun

theorem Obstacle.met?_eq_refusing {result : Except Failure (Option α)} :
    met? result = some refusing ↔ result = .ok none := by
  match result with
  | .ok none => exact iff_of_true rfl rfl
  | .ok (some _) => exact iff_of_false nofun nofun
  | .error _ => exact iff_of_false nofun nofun

theorem Obstacle.met?_eq_failing {result : Except Failure (Option α)} {failure : Failure} :
    met? result = some (failing failure) ↔ result = .error failure := by
  match result with
  | .ok none => exact iff_of_false nofun nofun
  | .ok (some _) => exact iff_of_false nofun nofun
  | .error failure' =>
    show some (failing failure') = _ ↔ _
    rw [Option.some_inj, failing.injEq, Except.error.injEq]

namespace View

variable (view : View)

/-- Whether the code of a build is seen at a site. There is nothing at the address zero. -/
def siteCheck (build : Build) (moduleBase : UInt32) (site : Site) : Except Failure Bool :=
  let entry := moduleBase + (build.entry site).offset
  if entry = 0 then .error .notPlaced
  else (view.read entry 6).map (· == (preamble site build moduleBase).bytes)

/-- The checks in their order. Those that come after the obstacle of a missing address or build are left out. -/
def checks : List (Except Failure Bool) :=
  [.ok (!view.exited), view.is64Bit.map (!·)] ++
    match view.moduleBase with
    | .error failure => [.error failure]
    | .ok moduleBase =>
      match view.read (moduleBase + Build.signatureOffset) 4 with
      | .error failure => [.error failure]
      | .ok bytes =>
        match Build.ofSignature? bytes.word with
        | none => [.ok false]
        | some build => Site.all.map (view.siteCheck build moduleBase)

/-- The first check that is not passed. -/
def obstacle? : Option Obstacle := view.checks.findSome? Obstacle.of?

/-- The process is a living one of 32 bits and of a known build, and each site lies at an address and holds the code
that the build has there. The candidate says so. -/
structure Accepts (process : π) (candidate : Candidate π) : Prop where
  process : candidate.process = process
  living : view.exited = false
  narrow : view.is64Bit = .ok false
  base : view.moduleBase = .ok candidate.moduleBase
  known : candidate.build ∈ Build.known
  signature : ∃ bytes, view.read (candidate.moduleBase + Build.signatureOffset) 4 = .ok bytes ∧
    bytes.word = candidate.build.signature
  code : ∀ site ∈ Site.all, candidate.moduleBase + (candidate.build.entry site).offset ≠ 0 ∧
    view.read (candidate.moduleBase + (candidate.build.entry site).offset) 6 =
      .ok (preamble site candidate.build candidate.moduleBase).bytes
  snapshots : candidate.snapshots = candidate.build.snapshots candidate.moduleBase

/-! #### Examining a view -/

/-- The known build, if any, whose signature is seen. -/
def detectBuild (moduleBase : UInt32) : Except Failure (Option Build) := do
  let bytes ← view.read (moduleBase + Build.signatureOffset) 4
  return Build.ofSignature? bytes.word

/-- The code of the sites, if it is that of the build. -/
def snapshots (build : Build) (moduleBase : UInt32) : List Site → Except Failure (Option (List Snapshot))
  | [] => return some []
  | site :: rest => do
    if ← view.siteCheck build moduleBase site then
      return (← snapshots build moduleBase rest).map (⟨site, preamble site build moduleBase⟩ :: ·)
    else return none

/-- What comes of a process that answers as the view does. -/
def examine (process : π) : Except Failure (Option (Candidate π)) := do
  if view.exited then return none
  if ← view.is64Bit then return none
  let moduleBase ← view.moduleBase
  let some build ← view.detectBuild moduleBase | return none
  let some snapshots ← view.snapshots build moduleBase Site.all | return none
  return some { process, build, moduleBase, snapshots }

variable {view : View} {process : π} {candidate : Candidate π}

private theorem met?_snapshots (build : Build) (moduleBase : UInt32) (sites : List Site) :
    Obstacle.met? (view.snapshots build moduleBase sites) =
      (sites.map (view.siteCheck build moduleBase)).findSome? Obstacle.of? := by
  induction sites with
  | nil => rfl
  | cons site rest ih =>
    unfold snapshots
    rw [List.map_cons, List.findSome?_cons]
    cases view.siteCheck build moduleBase site with
    | error failure => rfl
    | ok same =>
      cases same with
      | false => rfl
      | true =>
        refine Eq.trans ?_ ih
        match view.snapshots build moduleBase rest with
        | .ok none => rfl
        | .ok (some _) => rfl
        | .error _ => rfl

private theorem eq_map_of_snapshots {build : Build} {moduleBase : UInt32} {sites : List Site} {found : List Snapshot}
    (h : view.snapshots build moduleBase sites = .ok (some found)) :
    found = sites.map fun site => ⟨site, preamble site build moduleBase⟩ := by
  induction sites generalizing found with
  | nil => exact (Option.some.inj (Except.ok.inj h)).symm
  | cons site rest ih =>
    unfold snapshots at h
    match hsite : view.siteCheck build moduleBase site, hrest : view.snapshots build moduleBase rest with
    | .error _, _ => rw [hsite] at h; cases h
    | .ok false, _ => rw [hsite] at h; cases h
    | .ok true, .error _ => rw [hsite, hrest] at h; cases h
    | .ok true, .ok none => rw [hsite, hrest] at h; cases h
    | .ok true, .ok (some later) =>
      rw [hsite, hrest] at h
      rw [List.map_cons, ← ih hrest]
      exact (Option.some.inj (Except.ok.inj h)).symm

private theorem snapshots_eq_some {build : Build} {moduleBase : UInt32} {sites : List Site} {found : List Snapshot} :
    view.snapshots build moduleBase sites = .ok (some found) ↔
      (∀ site ∈ sites, view.siteCheck build moduleBase site = .ok true) ∧
        found = sites.map fun site => ⟨site, preamble site build moduleBase⟩ := by
  have hpassed : (∃ found, view.snapshots build moduleBase sites = .ok (some found)) ↔
      ∀ site ∈ sites, view.siteCheck build moduleBase site = .ok true := by
    rw [← Obstacle.met?_eq_none, met?_snapshots, List.findSome?_eq_none_iff, List.forall_mem_map]
    simp only [Obstacle.of?_eq_none]
  constructor
  · intro h
    exact ⟨hpassed.1 ⟨found, h⟩, eq_map_of_snapshots h⟩
  · rintro ⟨hall, rfl⟩
    obtain ⟨found, hfound⟩ := hpassed.2 hall
    rw [hfound, eq_map_of_snapshots hfound]

theorem met?_examine (process : π) : Obstacle.met? (view.examine process) = view.obstacle? := by
  unfold examine detectBuild obstacle? checks
  cases view.exited with
  | true => rfl
  | false =>
  match view.is64Bit with
  | .error _ => rfl
  | .ok true => rfl
  | .ok false =>
  cases view.moduleBase with
  | error _ => rfl
  | ok moduleBase =>
  simp only [bind, Except.bind, pure, Except.pure]
  cases view.read (moduleBase + Build.signatureOffset) 4 with
  | error _ => rfl
  | ok bytes =>
  simp only
  cases Build.ofSignature? bytes.word with
  | none => rfl
  | some build =>
  refine Eq.trans ?_ (met?_snapshots build moduleBase Site.all)
  simp only
  match view.snapshots build moduleBase Site.all with
  | .ok none => rfl
  | .ok (some _) => rfl
  | .error _ => rfl

private theorem siteCheck_eq_true {build : Build} {moduleBase : UInt32} {site : Site} :
    view.siteCheck build moduleBase site = .ok true ↔ moduleBase + (build.entry site).offset ≠ 0 ∧
      view.read (moduleBase + (build.entry site).offset) 6 = .ok (preamble site build moduleBase).bytes := by
  unfold siteCheck
  by_cases hzero : moduleBase + (build.entry site).offset = 0
  · simp only [if_pos hzero]
    exact iff_of_false nofun fun h => h.1 hzero
  · simp only [if_neg hzero]
    rw [and_iff_right hzero]
    cases view.read (moduleBase + (build.entry site).offset) 6 with
    | error _ => exact iff_of_false nofun nofun
    | ok bytes => rw [Except.map, Except.ok.injEq, Except.ok.injEq, beq_iff_eq]

theorem accepts_of_examine (h : view.examine process = .ok (some candidate)) : view.Accepts process candidate := by
  unfold examine at h
  split at h
  · cases h
  rename_i hliving
  obtain ⟨wide, hwide, h⟩ := Failure.exists_of_bind h
  split at h
  · cases h
  rename_i hnarrow
  obtain ⟨moduleBase, hbase, h⟩ := Failure.exists_of_bind h
  obtain ⟨found, hdetected, h⟩ := Failure.exists_of_bind h
  obtain ⟨bytes, hread, hbuild⟩ := Failure.exists_of_bind hdetected
  obtain rfl := Except.ok.inj hbuild
  split at h
  swap
  · cases h
  rename_i build hbuild
  obtain ⟨found, hfound, h⟩ := Failure.exists_of_bind h
  split at h
  swap
  · cases h
  obtain rfl := Option.some.inj (Except.ok.inj h)
  obtain ⟨hknown, hsignature⟩ := Build.ofSignature?_eq_some.1 hbuild
  obtain ⟨hcode, rfl⟩ := snapshots_eq_some.1 hfound
  exact ⟨rfl, Bool.eq_false_iff.2 hliving, Bool.eq_false_iff.2 hnarrow ▸ hwide, hbase, hknown,
    ⟨bytes, hread, hsignature⟩, fun site hsite => siteCheck_eq_true.1 (hcode site hsite), rfl⟩

theorem Accepts.examine_eq (h : view.Accepts process candidate) : view.examine process = .ok (some candidate) := by
  obtain ⟨rfl, hliving, hnarrow, hbase, hknown, ⟨bytes, hread, hsignature⟩, hcode, hsnapshots⟩ := h
  have hbuild : Build.ofSignature? bytes.word = some candidate.build :=
    Build.ofSignature?_eq_some.2 ⟨hknown, hsignature⟩
  have hfound := snapshots_eq_some.2 ⟨fun site hsite => siteCheck_eq_true.2 (hcode site hsite), hsnapshots⟩
  unfold examine detectBuild
  rw [hliving, hnarrow, hbase]
  simp only [bind, Except.bind, pure, Except.pure, hread, hbuild, hfound]
  rfl

end View

/-! ### Answers of one view -/

/-- All answers so far are those of the view. -/
def Journal.Agrees (view : View) (s : Journal σ) : Prop := ∀ access ∈ s.accesses, access.Agrees view

/-- If all answers so far are those of the view, the condition holds. -/
def Journal.Told (view : View) (condition : Prop) (s : Journal σ) : Prop := s.Agrees view → condition

/-- Where all answers are those of the view, the action gives this result. -/
def Action.Tells (view : View) (action : Action (Journal σ) α) (result : α) : Prop :=
  ∀ condition, Action.Ensures (Journal.Told view condition) action fun a => Journal.Told view (condition ∧ a = result)

/-- The same for attempts. -/
def Attempt.Tells (view : View) (attempt : Attempt (Journal σ) α) (result : Except Failure α) : Prop :=
  Action.Tells view attempt.outcome result

namespace Action.Tells

variable {view : View} {action : Action (Journal σ) α} {a : α}

private theorem pure (a : α) : Tells view (Pure.pure a : Action (Journal σ) α) a :=
  fun _ _ hs hagrees => ⟨hs hagrees, rfl⟩

theorem report (diagnostic : Diagnostic) : Tells view (Action.report diagnostic : Action (Journal σ) Unit) () :=
  fun _ _ hs hagrees => ⟨hs hagrees, rfl⟩

private theorem bind {f : α → Action (Journal σ) β} {g : α → β} (h : Tells view action a)
    (hf : ∀ a, Tells view (f a) (g a)) :
    Tells view (action >>= f) (g a) := by
  intro condition s hs hagrees
  obtain ⟨⟨hcondition, hfirst⟩, hsecond⟩ := hf _ _ _ (h condition s hs) hagrees
  exact ⟨hcondition, hsecond.trans (congrArg g hfirst)⟩

/-- A question is answered as the view says. -/
private theorem noted {action : Action σ α} {describe : α → Access}
    (h : ∀ found, (describe found).Agrees view → found = a) :
    Tells view (Journal.noted describe action) a := by
  intro condition
  refine @Journal.ensures_noted _ _ describe action
    (fun accesses _ => (∀ access ∈ accesses, access.Agrees view) → condition)
    (fun found accesses _ => (∀ access ∈ accesses, access.Agrees view) → condition ∧ found = a) ?_
  intro accesses s hs hagrees
  obtain ⟨hbefore, hlast⟩ := List.forall_mem_append.1 hagrees
  exact ⟨hs hbefore, h _ (hlast _ (List.mem_singleton_self _))⟩

end Action.Tells

namespace Attempt.Tells

variable {view : View} {attempt : Attempt (Journal σ) α} {result : Except Failure α}

private theorem pure (a : α) : Tells view (Pure.pure a : Attempt (Journal σ) α) (.ok a) := Action.Tells.pure _

theorem throw (failure : Failure) : Tells view (MonadExcept.throw failure : Attempt (Journal σ) α) (.error failure) :=
  Action.Tells.pure _

private theorem report (diagnostic : Diagnostic) :
    Tells view (Attempt.report diagnostic : Attempt (Journal σ) Unit) (.ok ()) :=
  fun _ _ hs hagrees => ⟨hs hagrees, rfl⟩

private theorem lift {action : Action (Journal σ) α} {a : α} (h : Action.Tells view action a) :
    Tells view (liftM action : Attempt (Journal σ) α) (.ok a) :=
  fun condition s hs hagrees => ⟨(h condition s hs hagrees).1, congrArg Except.ok (h condition s hs hagrees).2⟩

private theorem bind {f : α → Attempt (Journal σ) β} {g : α → Except Failure β} (h : Tells view attempt result)
    (hf : ∀ a, Tells view (f a) (g a)) : Tells view (attempt >>= f) (result >>= g) := by
  unfold Tells
  rw [Attempt.outcome_bind]
  refine Action.Tells.bind (g := fun result : Except Failure α => result >>= g) h fun result => ?_
  cases result with
  | ok a => exact hf a
  | error failure => exact Action.Tells.pure _

private theorem throw_bind (failure : Failure) {f : α → Attempt (Journal σ) β} :
    Tells view (MonadExcept.throw failure >>= f) (.error failure) := by
  unfold Tells
  rw [Attempt.outcome_bind]
  exact Action.Tells.pure _

end Attempt.Tells

/-! ### What a probe gives -/

namespace View

variable {inner : Platform σ π}

private theorem tells_read (process : π) (address : UInt32) (n : Nat) :
    Attempt.Tells view ((Journal.platform inner).read process address n) (view.read address n) :=
  Action.Tells.noted fun _ h => h

private theorem tells_detectBuild (process : π) (moduleBase : UInt32) :
    Attempt.Tells view ((Journal.platform inner).detectBuild process moduleBase)
      (view.detectBuild moduleBase) := by
  have hword : Attempt.Tells view ((Journal.platform inner).readWord process (moduleBase + Build.signatureOffset)) (do
      return (← view.read (moduleBase + Build.signatureOffset) 4).word) :=
    .bind (tells_read process _ 4) fun _ => .pure _
  have hdetect : Attempt.Tells view ((Journal.platform inner).detectBuild process moduleBase)
      ((do return (← view.read (moduleBase + Build.signatureOffset) 4).word) >>= fun signature =>
        pure (Build.ofSignature? signature)) := by
    refine .bind hword fun signature => ?_
    cases Build.ofSignature? signature with
    | none => exact .bind (.report _) fun _ => .pure _
    | some build => exact .bind (.report _) fun _ => .pure _
  simp only [bind_assoc, pure_bind] at hdetect
  exact hdetect

private theorem tells_holdsCode (process : π) (build : Build) (moduleBase : UInt32) (site : Site) :
    Attempt.Tells view ((Journal.platform inner).holdsCode process (preamble site build moduleBase))
      (view.siteCheck build moduleBase site) := by
  have hlength : (preamble site build moduleBase).bytes.length = 6 := size_preamble site build moduleBase
  unfold Platform.holdsCode siteCheck Code.isPlaced
  rw [preamble_base, hlength]
  by_cases hzero : moduleBase + (build.entry site).offset = 0
  · simp only [hzero, ↓reduceIte]
    exact .throw_bind _
  · have hplaced : (moduleBase + (build.entry site).offset != Code.unplaced) = true := by
      simpa [Code.unplaced] using hzero
    simp only [hzero, hplaced, ↓reduceIte]
    exact .bind (tells_read process _ 6) fun _ => .pure _

private theorem tells_snapshots (process : π) (build : Build) (moduleBase : UInt32) (sites : List Site) :
    Attempt.Tells view ((Journal.platform inner).snapshots process build moduleBase sites)
      (view.snapshots build moduleBase sites) := by
  induction sites with
  | nil => exact .pure _
  | cons site rest ih =>
    refine .bind (tells_holdsCode process build moduleBase site) fun same => ?_
    cases same with
    | false => exact .bind (.report _) fun _ => .pure _
    | true => exact .bind ih fun _ => .pure _

private theorem tells_examine (process : π) :
    Attempt.Tells view (Platform.probe.examine (Journal.platform inner) process) (view.examine process) := by
  have hexited : Action.Tells view ((Journal.platform inner).hasExited process) view.exited := .noted fun _ h => h
  have hwide : Attempt.Tells view ((Journal.platform inner).is64Bit process) view.is64Bit :=
    Action.Tells.noted fun _ h => h
  have hbase : Attempt.Tells view ((Journal.platform inner).moduleBase process) view.moduleBase :=
    Action.Tells.noted fun _ h => h
  unfold Platform.probe.examine examine
  show Attempt.Tells view _ (Except.ok view.exited >>= fun exited => if exited = true then pure none else _)
  refine .bind (.lift hexited) fun exited => ?_
  cases exited with
  | true => exact .bind (.report _) fun _ => .pure _
  | false =>
  refine .bind hwide fun wide => ?_
  cases wide with
  | true => exact .bind (.report _) fun _ => .pure _
  | false =>
  refine .bind hbase fun moduleBase => ?_
  refine .bind (tells_detectBuild process moduleBase) fun found => ?_
  cases found with
  | none => exact .bind (.report _) fun _ => .pure _
  | some build =>
  refine .bind (tells_snapshots process build moduleBase Site.all) fun found => ?_
  cases found with
  | none => exact .pure _
  | some snapshots => exact .pure _

theorem tells_probe (process : π) :
    Attempt.Tells view ((Journal.platform inner).probe process) (view.examine process) := by
  refine Action.Tells.bind (g := fun result => result) (tells_examine process) fun result => ?_
  have hclose : Action.Tells view ((Journal.platform inner).close process) () := .noted fun _ _ => rfl
  match result with
  | .ok (some candidate) => exact .bind (.pure _) fun _ => .pure _
  | .ok none => exact .bind hclose fun _ => .pure _
  | .error failure => exact .bind hclose fun _ => .pure _

end View

end LoadRemover
