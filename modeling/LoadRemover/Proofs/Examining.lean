import LoadRemover.Proofs.Runs
import LoadRemover.Proofs.Views

/-!
# How a process is accepted

A probe puts at most ten questions, none of them twice, whatever the answers are and wherever the module lies
(`Journal.asks_probe`, `Build.nodup_questions`). So the answers are those of a view (`View.exists_agreeing`), and the
view tells what comes of the probe (`Platform.probe_exact`). Nothing but questions is put to a process, so it is left as
it was, and it is closed unless it was accepted.
-/

namespace LoadRemover

variable {σ π α β : Type}

/-! ### What is asked -/

/-- A question about a process. -/
inductive Question where
  | hasExited
  | is64Bit
  | moduleBase
  | read (address : UInt32) (n : Nat)
deriving DecidableEq

/-- The question that the access has put, if it is one. -/
def Access.question? : Access → Option Question
  | .hasExited _ => some .hasExited
  | .is64Bit _ => some .is64Bit
  | .moduleBase _ => some .moduleBase
  | .read address n _ => some (.read address n)
  | _ => none

/-- The question for the code of a site. -/
def Build.siteQuestion (build : Build) (moduleBase : UInt32) (site : Site) : Question :=
  .read (moduleBase + (build.entry site).offset) 6

/-- The questions by which a process of the build is examined, in their order. -/
def Build.questions (build : Build) (moduleBase : UInt32) : List Question :=
  [.hasExited, .is64Bit, .moduleBase, .read (moduleBase + signatureOffset) 4] ++
    Site.all.map (build.siteQuestion moduleBase)

/-- No question is put twice, wherever the module lies. -/
private theorem Build.nodup_questions {build : Build} (h : build ∈ known) (moduleBase : UInt32) :
    (build.questions moduleBase).Nodup := by
  have hall : Site.all.Nodup := by decide
  have hsites : (Site.all.map (build.siteQuestion moduleBase)).Nodup := by
    refine List.pairwise_map.2 (hall.imp fun {site site'} hne hsame => ?_)
    have haddress := (Question.read.inj hsame).1
    rw [offset_entry h, offset_entry h, UInt32.add_right_inj] at haddress
    have hapart := Site.offset_apart hne
    rw [haddress] at hapart
    omega
  unfold questions
  simp [hsites, siteQuestion]

namespace Journal

/-- Exactly these questions were put so far, and nothing else was done. -/
def Asked (questions : List Question) (s : Journal σ) : Prop :=
  s.accesses.map Access.question? = questions.map some

/-- The questions so far are the first ones of these. -/
def AskedFrom (questions : List Question) (s : Journal σ) : Prop := ∃ asked, asked <+: questions ∧ Asked asked s

private theorem Asked.askedFrom {asked questions : List Question} {s : Journal σ} (h : Asked asked s)
    (hfirst : asked <+: questions) : AskedFrom questions s :=
  ⟨asked, hfirst, h⟩

section Asking

variable {question : Question} {asked : List Question}

private theorem asks_noted {describe : α → Access} {action : Action σ α}
    (h : ∀ a, (describe a).question? = some question) :
    Action.Ensures (Asked asked) (noted describe action) fun _ => Asked (asked ++ [question]) := by
  refine @ensures_noted _ _ describe action (fun accesses _ => accesses.map Access.question? = asked.map some)
    (fun _ accesses _ => accesses.map Access.question? = (asked ++ [question]).map some) fun accesses s hs => ?_
  have hasked : accesses.map Access.question? = asked.map some := hs
  show (accesses ++ [_]).map Access.question? = _
  rw [List.map_append, List.map_append, hasked, List.map_singleton, h]
  rfl

private theorem asks_attempted {describe : Except Failure α → Access} {attempt : Attempt σ α}
    (h : ∀ result, (describe result).question? = some question) :
    Attempt.Ensures (Asked asked) (attempted describe attempt) (fun _ => Asked (asked ++ [question]))
      (Asked (asked ++ [question])) := by
  refine (asks_noted h).post_mono fun result s hs => ?_
  cases result <;> exact hs

variable (inner : Platform σ π) (process : π)

private theorem asks_read (address : UInt32) (n : Nat) :
    Attempt.Ensures (Asked asked) ((platform inner).read process address n)
      (fun _ => Asked (asked ++ [.read address n])) (Asked (asked ++ [.read address n])) :=
  asks_attempted fun _ => rfl

private theorem asks_detectBuild (moduleBase : UInt32) :
    Attempt.Ensures (Asked asked) ((platform inner).detectBuild process moduleBase)
      (fun found s => (∀ build ∈ found, build ∈ Build.known) ∧
        Asked (asked ++ [.read (moduleBase + Build.signatureOffset) 4]) s)
      (Asked (asked ++ [.read (moduleBase + Build.signatureOffset) 4])) := by
  have hword : Attempt.Ensures (Asked asked)
      ((platform inner).readWord process (moduleBase + Build.signatureOffset))
      (fun _ => Asked (asked ++ [.read (moduleBase + Build.signatureOffset) 4]))
      (Asked (asked ++ [.read (moduleBase + Build.signatureOffset) 4])) :=
    .bind (asks_read inner process _ 4) fun _ => .pure fun _ hs => hs
  refine .bind hword fun signature => ?_
  cases hfound : Build.ofSignature? signature with
  | none => exact .bind .report fun _ => .pure fun _ hs => ⟨nofun, hs⟩
  | some build =>
    refine .bind .report fun _ => .pure fun _ hs => ⟨?_, hs⟩
    rintro _ ⟨⟩
    exact (Build.ofSignature?_eq_some.1 hfound).1

private theorem asks_snapshots (build : Build) (moduleBase : UInt32) (sites : List Site) :
    Attempt.Ensures (Asked asked) ((platform inner).snapshots process build moduleBase sites)
      (fun _ => AskedFrom (asked ++ sites.map (build.siteQuestion moduleBase)))
      (AskedFrom (asked ++ sites.map (build.siteQuestion moduleBase))) := by
  induction sites generalizing asked with
  | nil => exact .pure fun _ hs => hs.askedFrom (List.prefix_append _ _)
  | cons site rest ih =>
    rw [List.map_cons, List.append_cons]
    have hfrom : ∀ s : Journal σ, Asked (asked ++ [build.siteQuestion moduleBase site]) s →
        AskedFrom (asked ++ [build.siteQuestion moduleBase site] ++ rest.map (build.siteQuestion moduleBase)) s :=
      fun _ hs => hs.askedFrom (List.prefix_append _ _)
    have hholds : Attempt.Ensures (Asked asked) ((platform inner).holdsCode process (preamble site build moduleBase))
        (fun _ => Asked (asked ++ [build.siteQuestion moduleBase site]))
        (AskedFrom (asked ++ [build.siteQuestion moduleBase site] ++ rest.map (build.siteQuestion moduleBase))) := by
      have hlength : (preamble site build moduleBase).bytes.length = 6 := size_preamble site build moduleBase
      unfold Platform.holdsCode
      cases (preamble site build moduleBase).isPlaced with
      | true =>
        rw [preamble_base, hlength]
        exact .bind ((asks_read inner process _ 6).failed_mono hfrom) fun _ =>
          .pure fun _ hs => hs
      | false =>
        refine .throw_bind fun _ hs => hs.askedFrom ?_
        rw [List.append_assoc]
        exact List.prefix_append _ _
    refine .bind hholds fun same => ?_
    cases same with
    | false => exact .bind .report fun _ => .pure hfrom
    | true => exact .bind ih fun _ => .pure fun _ hs => hs

/-- Nothing was done but to put the first ones of the questions for some known build. -/
def Examined (s : Journal σ) : Prop := ∃ build ∈ Build.known, ∃ moduleBase, AskedFrom (build.questions moduleBase) s

private theorem asks_examine :
    Attempt.Ensures (Asked []) (Platform.probe.examine (platform inner) process) (fun _ => Examined) Examined := by
  have hfirst : ∀ {asked} moduleBase, asked <+: Build.retail.questions moduleBase →
      ∀ s : Journal σ, Asked asked s → Examined s :=
    fun moduleBase hprefix s hs => ⟨Build.retail, List.mem_cons_self .., moduleBase, hs.askedFrom hprefix⟩
  have hexited : Action.Ensures (Asked []) ((platform inner).hasExited process) fun _ => Asked [.hasExited] :=
    asks_noted fun _ => rfl
  have hwide : Attempt.Ensures (Asked [.hasExited]) ((platform inner).is64Bit process)
      (fun _ => Asked [.hasExited, .is64Bit]) (Asked [.hasExited, .is64Bit]) := asks_attempted fun _ => rfl
  have hbase : Attempt.Ensures (Asked [.hasExited, .is64Bit]) ((platform inner).moduleBase process)
      (fun _ => Asked [.hasExited, .is64Bit, .moduleBase]) (Asked [.hasExited, .is64Bit, .moduleBase]) :=
    asks_attempted fun _ => rfl
  unfold Platform.probe.examine
  refine .bind (.lift hexited) fun exited => ?_
  cases exited with
  | true => exact .bind .report fun _ => .pure (hfirst 0 ⟨_, rfl⟩)
  | false =>
  refine .bind (hwide.failed_mono (hfirst 0 ⟨_, rfl⟩)) fun wide => ?_
  cases wide with
  | true => exact .bind .report fun _ => .pure (hfirst 0 ⟨_, rfl⟩)
  | false =>
  refine .bind (hbase.failed_mono (hfirst 0 ⟨_, rfl⟩)) fun moduleBase => ?_
  refine .bind ((asks_detectBuild inner process moduleBase).failed_mono (hfirst moduleBase ⟨_, rfl⟩)) fun found =>
    Action.Ensures.of_imp fun hknown => ?_
  cases found with
  | none => exact Attempt.Ensures.bind .report fun _ => .pure (hfirst moduleBase ⟨_, rfl⟩)
  | some build =>
  have hexamined : ∀ s : Journal σ, AskedFrom (build.questions moduleBase) s → Examined s :=
    fun _ hs => ⟨build, hknown build rfl, moduleBase, hs⟩
  refine Attempt.Ensures.bind ((asks_snapshots inner process build moduleBase Site.all).ends_mono (fun _ => hexamined)
    hexamined) fun found => ?_
  cases found with
  | none => exact .pure fun _ hs => hs
  | some snapshots => exact .pure fun _ hs => hs

/-- What an examination is followed by: the process is closed, unless it was accepted. -/
def closing : Except Failure (Option (Candidate π)) → List Access
  | .ok (some _) => []
  | _ => [.close]

private theorem Examined.exists_asked {s : Journal σ} (h : s.Examined) : ∃ build ∈ Build.known, ∃ moduleBase,
    s.accesses.map Access.question? <+: (build.questions moduleBase).map some := by
  obtain ⟨build, hknown, moduleBase, asked, hprefix, hasked⟩ := h
  refine ⟨build, hknown, moduleBase, ?_⟩
  rw [hasked]
  exact hprefix.map some

private theorem asks_probe :
    Action.Ensures (Asked []) ((platform inner).probe process).outcome fun result s =>
      ∃ asked, s.accesses = asked ++ closing result ∧ ∃ build ∈ Build.known, ∃ moduleBase,
        asked.map Access.question? <+: (build.questions moduleBase).map some := by
  have hexamine : Action.Ensures (Asked []) (Platform.probe.examine (platform inner) process).outcome
      fun _ => Examined := by
    refine Action.Ensures.post_mono (asks_examine inner process) fun result s hs => ?_
    cases result <;> exact hs
  have hclose : Action.Ensures Examined ((platform inner).close process) fun _ s =>
      ∃ asked, s.accesses = asked ++ [.close] ∧ ∃ build ∈ Build.known, ∃ moduleBase,
        asked.map Access.question? <+: (build.questions moduleBase).map some :=
    fun s hs => ⟨s.world.accesses, rfl, hs.exists_asked⟩
  refine .bind hexamine fun result => ?_
  match result with
  | .ok (some candidate) =>
    exact fun s hs => ⟨s.world.accesses, (List.append_nil _).symm, Examined.exists_asked hs⟩
  | .ok none => exact .bind hclose fun _ => .pure fun _ hs => hs
  | .error failure => exact .bind hclose fun _ => .pure fun _ hs => hs

end Asking

end Journal

/-! ### What may be answered -/

/-- The view with the answer that the access has got. -/
def View.told (view : View) : Access → View
  | .hasExited answer => { view with exited := answer }
  | .is64Bit result => { view with is64Bit := result }
  | .moduleBase result => { view with moduleBase := result }
  | .read address n result => { view with read a m := if a = address ∧ m = n then result else view.read a m }
  | _ => view

private theorem Access.agrees_told (access : Access) (view : View) : access.Agrees (view.told access) := by
  cases access with
  | read address n result => exact (if_pos ⟨rfl, rfl⟩).symm
  | hasExited answer => exact rfl
  | is64Bit result => exact rfl
  | moduleBase result => exact rfl
  | _ => trivial

/-- Answers to other questions stay. -/
private theorem Access.Agrees.told {access other : Access} {view : View} (h : other.Agrees view)
    (hother : ∀ question, access.question? = some question → other.question? ≠ some question) :
    other.Agrees (view.told access) := by
  cases access with
  | read address n result =>
    cases other with
    | read address' n' result' =>
      refine (h : result' = _).trans (if_neg ?_).symm
      rintro ⟨rfl, rfl⟩
      exact hother _ rfl rfl
    | _ => exact h
  | hasExited answer =>
    cases other with
    | hasExited answer' => exact absurd rfl (hother _ rfl)
    | _ => exact h
  | is64Bit answer =>
    cases other with
    | is64Bit answer' => exact absurd rfl (hother _ rfl)
    | _ => exact h
  | moduleBase answer =>
    cases other with
    | moduleBase answer' => exact absurd rfl (hother _ rfl)
    | _ => exact h
  | _ => exact h

/-- If no question is put twice, the answers are those of a view. -/
private theorem View.exists_agreeing {accesses : List Access} (h : (accesses.filterMap Access.question?).Nodup) :
    ∃ view : View, ∀ access ∈ accesses, access.Agrees view := by
  induction accesses with
  | nil => exact ⟨⟨false, .ok false, .ok 0, fun _ _ => .ok []⟩, nofun⟩
  | cons access rest ih =>
    have hrest : (rest.filterMap Access.question?).Nodup := h.sublist ((List.sublist_cons_self ..).filterMap _)
    obtain ⟨view, hview⟩ := ih hrest
    -- the first answer is put in, which the others do not notice as their questions are different ones
    refine ⟨view.told access, List.forall_mem_cons.2 ⟨access.agrees_told view, fun other hother => ?_⟩⟩
    refine (hview other hother).told fun question hquestion hsame => ?_
    rw [List.filterMap_cons_some hquestion] at h
    exact (List.nodup_cons.1 h).1 (List.mem_filterMap.2 ⟨other, hother, hsame⟩)

/-! ### Acceptance -/

namespace View.Accepts

variable {view : View} {process : π} {candidate : Candidate π} (h : view.Accepts process candidate)
include h

private theorem sites : candidate.snapshots.map (·.site) = Site.all := by
  rw [h.snapshots, Build.snapshots, List.map_map]
  exact List.map_id _

private theorem live {snapshot : Snapshot} (hsnapshot : snapshot ∈ candidate.snapshots) :
    snapshot.code.base = candidate.moduleBase + (candidate.build.entry snapshot.site).offset ∧
      view.read snapshot.code.base 6 = .ok snapshot.code.bytes := by
  rw [h.snapshots] at hsnapshot
  obtain ⟨site, hsite, rfl⟩ := List.mem_map.1 hsnapshot
  rw [preamble_base]
  exact ⟨rfl, (h.code site hsite).2⟩

private theorem stored {bytes : Bytes} (hread : view.read (candidate.moduleBase + Build.signatureOffset) 4 = .ok bytes)
    (hlength : bytes.length = 4) : bytes = Bytes.littleEndian32 candidate.build.signature := by
  obtain ⟨bytes', hread', hsignature⟩ := h.signature
  obtain rfl := Except.ok.inj (hread.symm.trans hread')
  rw [← hsignature]
  exact (Bytes.littleEndian32_word hlength).symm

end View.Accepts

namespace Platform

section Probing

variable (platform : Platform σ π) (process : π) (s : Traced σ)

/-- The accesses of a probe. -/
def probing : List Access := platform.accesses (fun platform => (platform.probe process).outcome) s

private theorem nodup_probing : ((platform.probing process s).filterMap Access.question?).Nodup := by
  obtain ⟨asked, haccesses, build, hknown, moduleBase, hprefix⟩ :=
    Journal.asks_probe platform process (Journal.start s) rfl
  have hclosing : ∀ result : Except Failure (Option (Candidate π)),
      (Journal.closing result).filterMap Access.question? = [] := by
    intro result
    match result with
    | .ok none => rfl
    | .ok (some _) => rfl
    | .error _ => rfl
  have hquestions : asked.filterMap Access.question? <+: build.questions moduleBase := by
    have := hprefix.filterMap id
    simpa [List.filterMap_map] using this
  show (List.filterMap _ (_ : Journal σ).accesses).Nodup
  rw [haccesses, List.filterMap_append, hclosing, List.append_nil]
  exact (Build.nodup_questions hknown moduleBase).sublist hquestions.sublist

private theorem outcome_probe {view : View} (h : ∀ access ∈ platform.probing process s, access.Agrees view) :
    ((platform.probe process).outcome s).1 = view.examine process := by
  have htells : Attempt.Tells view ((Journal.platform platform).probe process) (view.examine process) :=
    View.tells_probe process
  rw [show (platform.probe process).outcome s = _ from (Journal.erases platform).probe process (Journal.start s)]
  exact (htells True (Journal.start s) (fun _ => trivial) h).2

end Probing

/-- Looking at a process and closing it keeps what each of its accesses keeps. -/
theorem ensures_probed {platform : Platform σ π} {process : π} {now : σ → Prop} (h : platform.Looks process now)
    (hclose : Action.Ensures now (platform.close process) fun _ => now) :
    Action.Ensures now (platform.probe process).outcome fun _ => now := by
  have hexamine : Action.Ensures now (probe.examine platform process).outcome fun _ => now := by
    refine Action.Ensures.post_mono h.ensures_examine fun result w hw => ?_
    cases result with
    | ok found => exact hw.2
    | error failure => exact hw
  refine .bind hexamine fun result => ?_
  match result with
  | .ok (some candidate) => exact fun _ hs => hs
  | .ok none => exact .bind hclose fun _ => .pure fun _ hw => hw
  | .error failure => exact .bind hclose fun _ => .pure fun _ hw => hw

/-- **A process is accepted exactly if it passes all checks.** A probe puts the first ones of ten questions, in their
order, and does nothing else but close the process if it does not accept it. Whatever the answers are, they are those of
a view. The candidate of a probe is the one that this view accepts: it names the build and the address of the module,
and its snapshots are those of all sites in their order, each at the entry of its site and with the bytes that are seen
there. A probe fails exactly if the first obstacle for the view is a failure or an entry at the address zero, and it
gives nothing exactly if this obstacle is an answer that was not asked for. What looking at the process and closing it
keep is kept. -/
theorem probe_exact (platform : Platform σ π) (process : π) (s : Traced σ) :
    (∃ asked, platform.probing process s = asked ++ Journal.closing ((platform.probe process).outcome s).1 ∧
      ∃ build ∈ Build.known, ∃ moduleBase,
        asked.map Access.question? <+: (build.questions moduleBase).map some) ∧
    (∃ view : View, ∀ access ∈ platform.probing process s, access.Agrees view) ∧
    (∀ view : View, (∀ access ∈ platform.probing process s, access.Agrees view) →
      (∀ candidate, ((platform.probe process).outcome s).1 = .ok (some candidate) ↔ view.Accepts process candidate) ∧
      (∀ candidate, view.Accepts process candidate → candidate.snapshots.map (·.site) = Site.all ∧
        (∀ snapshot ∈ candidate.snapshots,
          snapshot.code.base = candidate.moduleBase + (candidate.build.entry snapshot.site).offset ∧
          view.read snapshot.code.base 6 = .ok snapshot.code.bytes) ∧
        ∀ bytes, view.read (candidate.moduleBase + Build.signatureOffset) 4 = .ok bytes → bytes.length = 4 →
          bytes = Bytes.littleEndian32 candidate.build.signature) ∧
      (∀ failure, ((platform.probe process).outcome s).1 = .error failure ↔ view.obstacle? = some (.failing failure)) ∧
      (((platform.probe process).outcome s).1 = .ok none ↔ view.obstacle? = some .refusing)) ∧
    ∀ now : σ → Prop, platform.Looks process now → (Action.Ensures now (platform.close process) fun _ => now) →
      now s.world → now ((platform.probe process).outcome s).2.world := by
  refine ⟨?_, View.exists_agreeing (platform.nodup_probing process s), fun view hagrees => ?_,
    fun now hlooks hclose hs => ensures_probed hlooks hclose s hs⟩
  · rw [show (platform.probe process).outcome s = _ from (Journal.erases platform).probe process (Journal.start s)]
    exact Journal.asks_probe platform process (Journal.start s) rfl
  · rw [platform.outcome_probe process s hagrees]
    refine ⟨fun candidate => ⟨View.accepts_of_examine, View.Accepts.examine_eq⟩, fun candidate haccepts => ?_,
      fun failure => ?_, ?_⟩
    · exact ⟨haccepts.sites, fun snapshot hsnapshot => haccepts.live hsnapshot, fun bytes => haccepts.stored⟩
    · rw [← View.met?_examine process, Obstacle.met?_eq_failing]
    · rw [← View.met?_examine process, Obstacle.met?_eq_refusing]

end Platform

namespace InMemory

/-! ### Processes in memory -/

/-- What the process answers if nothing interferes. -/
def Target.view (t : Target) : View where
  exited := t.exited
  is64Bit := .ok t.is64Bit
  moduleBase := if t.exited then .error .exited else .ok t.moduleBase
  read := t.read

section Undisturbed

variable {w : World} {view : View}

private theorem agrees_noted (describe : α → Access) (f : World → α) (h : (describe (f w)).Agrees view) :
    Action.Ensures (fun s => s.world = w ∧ s.Agrees view) (Journal.noted describe (.onWorld fun w => (f w, w)))
      fun _ s => s.world = w ∧ s.Agrees view := by
  rintro s ⟨rfl, hagrees⟩
  exact ⟨rfl, List.forall_mem_append.2 ⟨hagrees, List.forall_mem_singleton.2 h⟩⟩

private theorem agrees_attempted (describe : Except Failure α → Access) (f : World → Except Failure α)
    (h : (describe (f w)).Agrees view) :
    Attempt.Ensures (fun s => s.world = w ∧ s.Agrees view) (Journal.attempted describe (.onWorld fun w => (f w, w)))
      (fun _ s => s.world = w ∧ s.Agrees view) fun s => s.world = w ∧ s.Agrees view := by
  refine (agrees_noted describe f h).post_mono fun result s hs => ?_
  cases result <;> exact hs

end Undisturbed

/-- Where nothing interferes, the view of a process is what it answers. -/
private theorem agrees_probing (handle : Handle) (s : Traced World) :
    ∀ access ∈ World.platform.probing handle s, access.Agrees (s.world.target handle.slot).view := by
  have hlooks : (Journal.platform World.platform).Looks handle fun s' =>
      s'.world = s.world ∧ s'.Agrees (s.world.target handle.slot).view := by
    refine ⟨agrees_noted .hasExited (fun w => (w.target handle.slot).exited) rfl,
      agrees_attempted .is64Bit (fun w => .ok (w.target handle.slot).is64Bit) rfl,
      agrees_attempted .moduleBase (fun w => if (w.target handle.slot).exited then .error .exited
        else .ok (w.target handle.slot).moduleBase) rfl, fun address n => ?_⟩
    exact agrees_attempted (.read address n) (fun w => (w.target handle.slot).read address n) rfl
  have hclose : Action.Ensures
      (fun s' : Journal World => s'.world = s.world ∧ s'.Agrees (s.world.target handle.slot).view)
      ((Journal.platform World.platform).close handle)
      fun _ s' => s'.world = s.world ∧ s'.Agrees (s.world.target handle.slot).view :=
    agrees_noted (fun _ => .close) (fun _ => ()) trivial
  exact (Platform.ensures_probed hlooks hclose (Journal.start s) ⟨rfl, nofun⟩).2

/-- A build whose module lies at the end of memory and goes on at its beginning. The entry of one of its sites is at the
address zero. -/
def splitGame : Target where
  info := ⟨5, "mc2.exe"⟩
  moduleBase := 0xFFFFC7A0
  mapped := (Build.retail.imageParts 0xFFFFC7A0).map fun (offset, bytes) =>
    Region.ofBytes (0xFFFFC7A0 + offset).toNat bytes

def splitWorld : World := { targets := [splitGame], listed := [0] }

/-- All code is there, but a site at the address zero makes the probe fail. The processes are left as they were. -/
theorem probe_exact_split :
    ((World.platform.probe ⟨0, 5⟩).outcome ⟨splitWorld, []⟩).1 = .error .notPlaced ∧
      ((World.platform.probe ⟨0, 5⟩).outcome ⟨splitWorld, []⟩).2.world = splitWorld := by
  obtain ⟨-, -, hview, hkept⟩ := Platform.probe_exact World.platform ⟨0, 5⟩ ⟨splitWorld, []⟩
  obtain ⟨-, -, hfailing, -⟩ := hview splitGame.view (agrees_probing _ _)
  have hquiet := World.quiet splitWorld
  exact ⟨(hfailing .notPlaced).2 (by decide +kernel),
    hkept (· = splitWorld) (hquiet.looks (fun _ hs => hs) _) (hquiet.close _) rfl⟩

end InMemory

end LoadRemover
