import LoadRemover.Session
import LoadRemover.Proofs.Triple

/-!
# Rules for patching

What patching a process does to the world follows from what single writes, allocations and releases do. Each rule
here takes conditions for these and gives one for a part of a session, so a property of a platform needs a proof for
its operations only:

* `Platform.ensures_install`: a block is allocated, filled, and released again if it cannot be filled;
* `Platform.ensures_writeBack` and `Platform.ensures_rollback`: the sites are put back one after the other, and the
  block is released only after all of them were;
* `Platform.ensures_redirectAll` and `Platform.ensures_attach`: the sites are redirected one after the other, and a
  failure puts back those that were touched.

What every change of a process keeps (`Platform.Edits`) is kept by attaching and restoring, up to the closing of the
process. What closing it keeps as well (`Platform.Confined`) is kept by a session as a whole.
-/

namespace LoadRemover

def Head.placed (snapshots : List Snapshot) (base : UInt32) : Head := (Head.build snapshots).moveTo base

/-- The sites of the block with the code found at each. -/
abbrev Head.pairs (snapshots : List Snapshot) : List (SiteLayout × Snapshot) :=
  (Head.build snapshots).sites.zip snapshots

section Pairs

variable {snapshots : List Snapshot} {done rest : List (SiteLayout × Snapshot)} {pair last : SiteLayout × Snapshot}
  {site : Site}

theorem Head.mem_pairs (h : done ++ pair :: rest = pairs snapshots) : pair ∈ pairs snapshots :=
  h ▸ List.mem_append_right _ (List.mem_cons_self ..)

theorem Head.mem_of_pairs (h : done ++ pair :: rest = pairs snapshots) : pair.2 ∈ snapshots :=
  (List.of_mem_zip (mem_pairs h)).2

theorem Head.subset_of_pairs (h : done ++ pair :: rest = pairs snapshots) :
    (done ++ [pair]).map (·.2) ⊆ snapshots := by
  intro snapshot hsnapshot
  obtain ⟨pair', hpair', rfl⟩ := List.mem_map.1 hsnapshot
  have hmem : pair' ∈ pairs snapshots := by
    rw [← h, List.append_cons]
    exact List.mem_append_left _ hpair'
  exact (List.of_mem_zip hmem).2

/-- The sites of these pairs. -/
def SitesOf (pairs : List (SiteLayout × Snapshot)) (site : Site) : Prop := ∃ pair ∈ pairs, pair.2.site = site

theorem not_sitesOf_nil : ¬ SitesOf [] site := by
  rintro ⟨pair, hpair, -⟩
  cases hpair

theorem sitesOf_concat : SitesOf (done ++ [last]) site ↔ SitesOf done site ∨ site = last.2.site := by
  constructor
  · rintro ⟨pair, hpair, rfl⟩
    rcases List.mem_append.1 hpair with hpair | hpair
    · exact .inl ⟨pair, hpair, rfl⟩
    · exact .inr (congrArg (fun pair => pair.2.site) (List.mem_singleton.1 hpair))
  · rintro (⟨pair, hpair, hsite⟩ | rfl)
    · exact ⟨pair, List.mem_append_left _ hpair, hsite⟩
    · exact ⟨last, List.mem_append_right _ (List.mem_singleton_self _), rfl⟩

end Pairs

/-- The session that begins when a candidate was patched with its head block at `base`. -/
def Session.start {π : Type} (candidate : Candidate π) (base : UInt32) : Session π where
  process := candidate.process
  build := candidate.build
  moduleBase := candidate.moduleBase
  snapshots := candidate.snapshots
  head := base
  flag := (Head.placed candidate.snapshots base).flagAddress
  watched := WatchList.add (WatchList.add [] .loading (Head.placed candidate.snapshots base).flagAddress) .modal
    (candidate.moduleBase + candidate.build.modal)

namespace Platform

variable {σ π : Type} {platform : Platform σ π} {process : π} {pre failed : σ → Prop}

/-! ### Installing -/

private theorem ensures_writeCode (code : Code) {post : σ → Prop}
    (hwrite : Attempt.Ensures pre (platform.write process code.base code.bytes) (fun _ => post) failed)
    (hunplaced : code.isPlaced = false → ∀ w, pre w → failed w) :
    Attempt.Ensures pre (platform.writeCode process code) (fun base w => base = code.base ∧ post w) failed := by
  unfold writeCode
  cases hplaced : code.isPlaced with
  | true =>
    simp only [↓reduceIte]
    exact Attempt.Ensures.bind hwrite fun _ => Attempt.Ensures.pure fun _ hw => ⟨rfl, hw⟩
  | false => exact Attempt.Ensures.throw_bind (hunplaced hplaced)

private theorem ensures_install {code : Code} {found unfilled : UInt32 → σ → Prop} {post : UInt32 → σ → Prop}
    (hallocate : Attempt.Ensures pre (platform.allocate process code.size) found failed)
    (hwrite : ∀ address, Attempt.Ensures (found address)
      (platform.write process address (code.moveTo address).bytes) (fun _ => post address) (unfilled address))
    (hunplaced : ∀ address, (code.moveTo address).isPlaced = false → ∀ w, found address w → unfilled address w)
    (hfree : ∀ address, Attempt.Ensures (unfilled address) (platform.free process address) (fun _ => failed) failed) :
    Action.Ensures pre (platform.install process code) fun
      | (code', .ok address) => fun w => code' = code.moveTo address ∧ post address w
      | (_, .error _) => failed := by
  unfold install
  refine Action.Ensures.bind hallocate fun result => ?_
  cases result with
  | error failure => exact Action.Ensures.pure fun _ hw => hw
  | ok address =>
    refine Action.Ensures.bind (ensures_writeCode (code.moveTo address) (hwrite address) (hunplaced address))
      fun result => ?_
    cases result with
    | ok base => exact Action.Ensures.bind Action.Ensures.report fun _ => Action.Ensures.pure fun _ hw => ⟨rfl, hw.2⟩
    | error failure =>
      refine Action.Ensures.bind (hfree address) fun result => ?_
      cases result with
      | ok _ => exact Action.Ensures.pure fun _ hw => hw
      | error second => exact Action.Ensures.bind Action.Ensures.report fun _ => Action.Ensures.pure fun _ hw => hw

/-! ### Undoing -/

section Undoing

variable {snapshots : List Snapshot} (back : List (Snapshot × Bool) → σ → Prop)
  (hwrite : ∀ done s rest, done.map (·.1) ++ s :: rest = snapshots → Attempt.Ensures (back done)
    (platform.write process s.code.base s.code.bytes) (fun _ => back (done ++ [(s, true)]))
    (back (done ++ [(s, false)])))
  (hunplaced : ∀ done s rest, done.map (·.1) ++ s :: rest = snapshots → s.code.isPlaced = false →
    ∀ w, back done w → back (done ++ [(s, false)]) w)
include hwrite hunplaced

/-- `back done` says that the sites `done` were to be put back, and which of them were. -/
private theorem ensures_writeBack : Action.Ensures (back []) (platform.writeBack process snapshots) fun complete w =>
    ∃ done, done.map (·.1) = snapshots ∧ complete = done.all (·.2) ∧ back done w := by
  have hall : ∀ rest done, done.map (·.1) ++ rest = snapshots →
      Action.Ensures (back done) (platform.writeBack process rest) fun complete w =>
        ∃ more, more.map (·.1) = rest ∧ complete = more.all (·.2) ∧ back (done ++ more) w := by
    intro rest
    induction rest with
    | nil =>
      intro done _
      refine Action.Ensures.pure fun w hw => ⟨[], rfl, rfl, ?_⟩
      rwa [List.append_nil]
    | cons s rest ih =>
      intro done hdone
      have hlater : ∀ success : Bool, List.map (·.1) (done ++ [(s, success)]) ++ rest = snapshots := by
        intro success
        rwa [List.map_append, List.map_singleton, List.append_assoc]
      unfold writeBack
      refine Action.Ensures.bind (ensures_writeCode s.code (hwrite done s rest hdone)
        (hunplaced done s rest hdone)) fun result => ?_
      cases result with
      | ok base =>
        refine (ih _ (hlater true)).mono (fun _ hw => hw.2) ?_
        rintro complete w ⟨more, hmore, hcomplete, hback⟩
        refine ⟨(s, true) :: more, ?_, ?_, ?_⟩
        · rw [List.map_cons, hmore]
        · rw [List.all_cons, Bool.true_and, hcomplete]
        · rwa [List.append_cons]
      | error failure =>
        refine Action.Ensures.bind Action.Ensures.report fun _ => ?_
        refine Action.Ensures.bind (ih _ (hlater false)) fun _ => Action.Ensures.pure ?_
        rintro w ⟨more, hmore, -, hback⟩
        refine ⟨(s, false) :: more, ?_, ?_, ?_⟩
        · rw [List.map_cons, hmore]
        · rw [List.all_cons, Bool.false_and]
        · rwa [List.append_cons]
  exact hall snapshots [] rfl

/-- The block is released in worlds only in which all sites were put back. -/
theorem ensures_rollback {head : UInt32} {post : Bool → σ → Prop}
    (hfree : ∀ done, done.map (·.1) = snapshots → done.all (·.2) = true →
      Attempt.Ensures (back done) (platform.free process head) (fun _ => post true) (post true))
    (hkept : ∀ done, done.map (·.1) = snapshots → done.all (·.2) = false → ∀ w, back done w → post false w) :
    Action.Ensures (back []) (platform.rollback process snapshots head) post := by
  unfold rollback
  refine Action.Ensures.bind (ensures_writeBack back hwrite hunplaced) fun complete => ?_
  cases complete with
  | false =>
    refine Action.Ensures.bind Action.Ensures.report fun _ => Action.Ensures.pure ?_
    rintro w ⟨done, hdone, hcomplete, hback⟩
    exact hkept done hdone hcomplete.symm w hback
  | true =>
    have hreleased : Action.Ensures
        (fun w => ∃ done, done.map (·.1) = snapshots ∧ true = done.all (·.2) ∧ back done w)
        (platform.free process head).outcome fun _ => post true := by
      rintro s ⟨done, hdone, hcomplete, hback⟩
      have := hfree done hdone hcomplete.symm s hback
      cases hresult : ((platform.free process head).outcome s).1 <;> simpa only [hresult] using this
    refine Action.Ensures.bind hreleased fun result => ?_
    cases result with
    | ok _ => exact Action.Ensures.pure fun _ hw => hw
    | error failure => exact Action.Ensures.bind Action.Ensures.report fun _ => Action.Ensures.pure fun _ hw => hw

end Undoing

/-! ### Attaching -/

/-- `redirected done` says that the sites `done` were redirected, and `touched done` that this was tried, without
success for the last one. -/
private theorem ensures_redirectAll {head : Head} {base : UInt32}
    {redirected touched : List (SiteLayout × Snapshot) → σ → Prop} {pairs : List (SiteLayout × Snapshot)}
    (hwrite : ∀ done pair rest, done ++ pair :: rest = pairs → Attempt.Ensures (redirected done)
      (platform.write process pair.2.code.base (redirect pair.2.code.base (head.wrapperAddress pair.1)).bytes)
      (fun _ => redirected (done ++ [pair])) (touched (done ++ [pair])))
    (hunplaced : ∀ done pair rest, done ++ pair :: rest = pairs → pair.2.code.isPlaced = false →
      ∀ w, redirected done w → touched (done ++ [pair]) w)
    (hrollback : ∀ done pair rest, done ++ pair :: rest = pairs → Action.Ensures (touched (done ++ [pair]))
      (platform.rollback process ((done ++ [pair]).map (·.2)) base) fun _ => failed) :
    Attempt.Ensures (redirected []) (platform.redirectAll process head base [] pairs)
      (fun _ => redirected pairs) failed := by
  have hall : ∀ rest done, done ++ rest = pairs → Attempt.Ensures (redirected done)
      (platform.redirectAll process head base (done.map (·.2)) rest) (fun _ => redirected pairs) failed := by
    intro rest
    induction rest with
    | nil =>
      intro done hdone
      refine Attempt.Ensures.pure fun _ hw => ?_
      rwa [← hdone, List.append_nil]
    | cons pair rest ih =>
      intro done hdone
      have hrest := ih (done ++ [pair]) (by rwa [List.append_assoc])
      -- the site whose redirection failed is put back as well
      have hundo := hrollback done pair rest hdone
      have hjump := ensures_writeCode (redirect pair.2.code.base (head.wrapperAddress pair.1))
        (hwrite done pair rest hdone) (hunplaced done pair rest hdone)
      rw [List.map_append, List.map_singleton] at hundo hrest
      unfold redirectAll
      refine Attempt.Ensures.bind ?_ fun _ => Attempt.Ensures.bind Attempt.Ensures.report fun _ => hrest
      refine Attempt.Ensures.tryCatch (Attempt.Ensures.bind hjump fun _ => Attempt.Ensures.pure fun _ hw => hw.2)
        fun failure => ?_
      exact Attempt.Ensures.bind (Attempt.Ensures.lift hundo) fun _ => Attempt.Ensures.throw fun _ hw => hw
  exact hall pairs [] rfl

/-- A session that began has its block installed and all sites redirected. -/
theorem ensures_attach {candidate : Candidate π} (found unfilled : UInt32 → σ → Prop)
    (redirected touched : UInt32 → List (SiteLayout × Snapshot) → σ → Prop) {closed : σ → Prop}
    (hallocate : Attempt.Ensures pre
      (platform.allocate candidate.process (Head.build candidate.snapshots).code.size) found failed)
    (hfill : ∀ base, Attempt.Ensures (found base)
      (platform.write candidate.process base (Head.placed candidate.snapshots base).code.bytes)
      (fun _ => redirected base []) (unfilled base))
    (hunfilled : ∀ base, (Head.placed candidate.snapshots base).code.isPlaced = false →
      ∀ w, found base w → unfilled base w)
    (hunfill : ∀ base, Attempt.Ensures (unfilled base) (platform.free candidate.process base) (fun _ => failed) failed)
    (hwrite : ∀ base done pair rest, done ++ pair :: rest = Head.pairs candidate.snapshots →
      Attempt.Ensures (redirected base done)
        (platform.write candidate.process pair.2.code.base
          (redirect pair.2.code.base ((Head.placed candidate.snapshots base).wrapperAddress pair.1)).bytes)
        (fun _ => redirected base (done ++ [pair])) (touched base (done ++ [pair])))
    (htouched : ∀ base done pair rest,
      done ++ pair :: rest = Head.pairs candidate.snapshots →
      pair.2.code.isPlaced = false → ∀ w, redirected base done w → touched base (done ++ [pair]) w)
    (hrollback : ∀ base done pair rest,
      done ++ pair :: rest = Head.pairs candidate.snapshots →
      Action.Ensures (touched base (done ++ [pair]))
        (platform.rollback candidate.process ((done ++ [pair]).map (·.2)) base) fun _ => failed)
    (hclose : Action.Ensures failed (platform.close candidate.process) fun _ => closed) :
    Attempt.Ensures pre (platform.attach candidate)
      (fun session w => ∃ base, session = Session.start candidate base ∧
        redirected base (Head.pairs candidate.snapshots) w) closed := by
  have hpatch : Attempt.Ensures pre (attach.patch platform candidate)
      (fun session w => ∃ base, session = Session.start candidate base ∧
        redirected base (Head.pairs candidate.snapshots) w) failed := by
    unfold attach.patch
    refine Attempt.Ensures.bind (Attempt.Ensures.lift
      (ensures_install hallocate hfill hunfilled hunfill)) fun (code, result) => ?_
    cases result with
    | error failure =>
      have hthrow : Attempt.Ensures failed (liftM (.error failure : Except Failure UInt32) : Attempt σ UInt32)
          (fun _ _ => False) failed := fun _ hs => hs
      exact Attempt.Ensures.bind hthrow fun _ _ h => h.elim
    | ok base =>
      refine Action.Ensures.of_imp ?_
      rintro rfl
      have hbase : Attempt.Ensures (redirected base []) (liftM (.ok base : Except Failure UInt32) : Attempt σ UInt32)
          (fun base' w => base' = base ∧ redirected base [] w) failed := fun _ hs => ⟨rfl, hs⟩
      refine Attempt.Ensures.bind hbase fun base' => Action.Ensures.of_imp ?_
      rintro rfl
      have hall := ensures_redirectAll (hwrite base') (htouched base') (hrollback base')
      exact Attempt.Ensures.bind hall fun _ => Attempt.Ensures.pure fun _ hw => ⟨base', rfl, hw⟩
  refine Action.Ensures.bind hpatch fun result => ?_
  cases result with
  | ok session =>
    exact Action.Ensures.bind (Action.Ensures.pure fun _ hw => hw) fun _ => Action.Ensures.pure fun _ hw => hw
  | error failure => exact Action.Ensures.bind hclose fun _ => Action.Ensures.pure fun _ hw => hw

/-! ### What all accesses keep -/

/-- Whatever is done to the memory of the process keeps `now`. -/
structure Edits (platform : Platform σ π) (process : π) (now : σ → Prop) : Prop where
  write : ∀ address bytes, Attempt.Ensures now (platform.write process address bytes) (fun _ => now) now
  allocate : ∀ size, Attempt.Ensures now (platform.allocate process size) (fun _ => now) now
  free : ∀ address, Attempt.Ensures now (platform.free process address) (fun _ => now) now

namespace Edits

variable {now closed : σ → Prop}

private theorem ensures_rollback (h : platform.Edits process now) (snapshots : List Snapshot) (head : UInt32) :
    Action.Ensures now (platform.rollback process snapshots head) fun _ => now :=
  Platform.ensures_rollback (fun _ => now) (fun _ _ _ _ => h.write _ _) (fun _ _ _ _ _ _ hw => hw)
    (fun _ _ _ => h.free head) fun _ _ _ _ hw => hw

/-- An attempt to attach that fails closes the process, and only then. -/
theorem ensures_attach {candidate : Candidate π} (h : platform.Edits candidate.process now)
    (hclose : Action.Ensures now (platform.close candidate.process) fun _ => closed) :
    Attempt.Ensures now (platform.attach candidate)
      (fun session w => (∃ base, session = Session.start candidate base) ∧ now w) closed :=
  (Platform.ensures_attach (fun _ => now) (fun _ => now) (fun _ _ => now) (fun _ _ => now) (h.allocate _)
    (fun _ => h.write _ _) (fun _ _ _ hw => hw) (fun _ => h.free _) (fun _ _ _ _ _ => h.write _ _)
    (fun _ _ _ _ _ _ _ hw => hw) (fun _ _ _ _ _ => h.ensures_rollback _ _) hclose).post_mono
    fun _ _ ⟨base, hsession, hw⟩ => ⟨⟨base, hsession⟩, hw⟩

/-- A session that is put back ends with its process closed. -/
theorem ensures_restore {session : Session π} (h : platform.Edits session.process now)
    (hexited : Action.Ensures now (platform.hasExited session.process) fun _ => now)
    (hclose : Action.Ensures now (platform.close session.process) fun _ => closed) :
    Action.Ensures now (platform.restore session) fun _ => closed := by
  refine Action.Ensures.bind hexited fun exited => ?_
  cases exited with
  | true => exact Action.Ensures.bind Action.Ensures.report fun _ => hclose
  | false =>
    refine Action.Ensures.bind (h.ensures_rollback session.snapshots session.head) fun restored => ?_
    cases restored with
    | true => exact Action.Ensures.bind Action.Ensures.report fun _ => hclose
    | false => exact Action.Ensures.bind Action.Ensures.report fun _ => hclose

end Edits

/-- Whatever a session does to its process keeps `now`. -/
structure Confined (platform : Platform σ π) (process : π) (now : σ → Prop) : Prop where
  close : Action.Ensures now (platform.close process) fun _ => now
  hasExited : Action.Ensures now (platform.hasExited process) fun _ => now
  write : ∀ address bytes, Attempt.Ensures now (platform.write process address bytes) (fun _ => now) now
  allocate : ∀ size, Attempt.Ensures now (platform.allocate process size) (fun _ => now) now
  free : ∀ address, Attempt.Ensures now (platform.free process address) (fun _ => now) now

theorem confined_true (platform : Platform σ π) (process : π) : platform.Confined process fun _ => True :=
  ⟨.trivial, .trivial, fun _ _ => .trivial, fun _ => .trivial, fun _ => .trivial⟩

namespace Confined

variable {now : σ → Prop}

private theorem edits (h : platform.Confined process now) : platform.Edits process now := ⟨h.write, h.allocate, h.free⟩

theorem ensures_rollback (h : platform.Confined process now) (snapshots : List Snapshot) (head : UInt32) :
    Action.Ensures now (platform.rollback process snapshots head) fun _ => now :=
  h.edits.ensures_rollback snapshots head

theorem ensures_attach {candidate : Candidate π} (h : platform.Confined candidate.process now) :
    Attempt.Ensures now (platform.attach candidate)
      (fun session w => (∃ base, session = Session.start candidate base) ∧ now w) now :=
  h.edits.ensures_attach h.close

theorem ensures_restore {session : Session π} (h : platform.Confined session.process now) :
    Action.Ensures now (platform.restore session) fun _ => now :=
  h.edits.ensures_restore h.hasExited h.close

end Confined

end Platform

end LoadRemover
