import LoadRemover.Proofs.Images
import LoadRemover.Proofs.Writing

/-!
# When attaching fails

Any access of an attempt to attach may fail, and a write that fails may have stored some of its bytes. What was done
until then is undone: the sites that were touched are put back, also the one that could only be redirected in part,
and the block goes when all of them were. An attempt that fails has accesses of one of three forms, and in each of them
it is known what is left of the process (`Unwound`, `Platform.Shows.ensures_attach`).
-/

namespace LoadRemover

open X86

variable {σ π : Type}

/-! ### Accesses of a failed attempt -/

section Accesses

variable (snapshots : List Snapshot) (base : UInt32)

def Access.toAllocate (result : Except Failure UInt32) : Access :=
  .allocate (Head.build snapshots).code.size result

def Access.toFill (result : Except Failure Unit) : Access := .write base (Head.placed snapshots base).code.bytes result

def Access.toRedirect (pair : SiteLayout × Snapshot) (result : Except Failure Unit) : Access :=
  .write pair.2.code.base (redirect pair.2.code.base ((Head.placed snapshots base).wrapperAddress pair.1)).bytes result

def Access.toPutBack (one : Snapshot × Except Failure Unit) : Access :=
  .write one.1.code.base one.1.code.bytes one.2

/-- The block was installed, and the sites `done` were redirected. -/
def redirecting (done : List (SiteLayout × Snapshot)) : List Access :=
  .toAllocate snapshots (.ok base) :: .toFill snapshots base (.ok ()) ::
    done.map fun pair => .toRedirect snapshots base pair (.ok ())

/-- Then the redirection of a site failed. -/
def breaking (done : List (SiteLayout × Snapshot)) (pair : SiteLayout × Snapshot) (failure : Failure) : List Access :=
  redirecting snapshots base done ++ [.toRedirect snapshots base pair (.error failure)]

end Accesses

/-- One of the given sites, with its six bytes. -/
def AtSites (snapshots : List Snapshot) (a : UInt32) : Prop := ∃ s ∈ snapshots, Within s.code.base 6 a

/-- The sites that could not be put back. -/
def lost (undo : List (Snapshot × Except Failure Unit)) : List Snapshot :=
  (undo.filter fun one => !one.2.isOk).map (·.1)

/-- There is room for the block of these sites. -/
structure Image.Room (before : Image) (snapshots : List Snapshot) (base : UInt32) (n : Nat) : Prop where
  free : before.Free base n
  size : (Head.build snapshots).code.size ≤ n

/-- What is left when the block was to be released: all is as it was, but for a block that could not be released. -/
def Image.Left (before after : Image) (released : Except Failure Unit) : Prop :=
  before.Keeps after ∧ ∀ u, released = .ok u → after = before

/-- A site could not be redirected, and the sites up to it were to be put back. -/
structure Broken (snapshots : List Snapshot) (before : Image) where
  base : UInt32
  n : Nat
  done : List (SiteLayout × Snapshot)
  pair : SiteLayout × Snapshot
  rest : List (SiteLayout × Snapshot)
  failure : Failure
  /-- The sites that were to be put back, each with the result. -/
  undo : List (Snapshot × Except Failure Unit)
  room : before.Room snapshots base n
  pairs : done ++ pair :: rest = Head.pairs snapshots
  undo_sites : undo.map (·.1) = (done ++ [pair]).map (·.2)

def Broken.accesses {snapshots : List Snapshot} {before : Image} (broken : Broken snapshots before) : List Access :=
  breaking snapshots broken.base broken.done broken.pair broken.failure ++ broken.undo.map .toPutBack

/-- The accesses of an attempt to attach that failed, and what it made of the image. -/
inductive Unwound (snapshots : List Snapshot) (before after : Image) : List Access → Prop
  /-- There was no block to be had. -/
  | unallocated (failure : Failure) (h : after = before) :
      Unwound snapshots before after [.toAllocate snapshots (.error failure)]
  /-- The block was not filled, and went. -/
  | unfilled (base : UInt32) (fill : List Access) (released : Except Failure Unit)
      (hfill : ∀ access ∈ fill, ∃ failure, access = .toFill snapshots base (.error failure))
      (h : before.Left after released) :
      Unwound snapshots before after (.toAllocate snapshots (.ok base) :: fill ++ [.free base released])
  /-- All sites that were touched were put back. -/
  | putBack (broken : Broken snapshots before) (released : Except Failure Unit)
      (hall : ∀ one ∈ broken.undo, one.2.isOk = true) (h : before.Left after released) :
      Unwound snapshots before after (broken.accesses ++ [.free broken.base released])
  /-- Some sites could not be put back. -/
  | kept (broken : Broken snapshots before) (hsome : ∃ one ∈ broken.undo, one.2.isOk = false)
      (h : before.Patched broken.base broken.n (AtSites (lost broken.undo)) after) :
      Unwound snapshots before after broken.accesses

/-! ### Rules -/

section Rules

variable {platform : Platform σ π} {images : σ → π → Image} {process : π} {pre post failed : List Access → Image → Prop}

/-- What holds of the accesses so far and of the image of a process. -/
def Stage (images : σ → π → Image) (process : π) (holds : List Access → Image → Prop) (s : Journal σ) : Prop :=
  holds s.accesses (images s.world process)

private theorem Journal.ensures_staged {α : Type} {describe : Except Failure α → Access} {attempt : Attempt σ α}
    {post : α → List Access → Image → Prop} {next : Image → α → Image → Prop} {torn : Image → Image → Prop}
    (h : ∀ image, Attempt.Ensures (fun w => images w process = image) attempt
      (fun a w => next image a (images w process)) fun w => torn image (images w process))
    (hok : ∀ accesses image, pre accesses image → ∀ a image', next image a image' →
      post a (accesses ++ [describe (.ok a)]) image')
    (hfails : ∀ accesses image, pre accesses image → ∀ failure image', torn image image' →
      failed (accesses ++ [describe (.error failure)]) image') :
    Attempt.Ensures (Stage images process pre) (attempted describe attempt) (fun a => Stage images process (post a))
      (Stage images process failed) := by
  refine @Journal.ensures_attempted _ _ describe attempt (fun accesses w => pre accesses (images w process))
    (fun a accesses w => post a accesses (images w process)) (fun accesses w => failed accesses (images w process))
    fun accesses => ?_
  intro s hs
  have hresult := h (images s.world process) s rfl
  cases houtcome : (attempt.outcome s).1 with
  | ok a =>
    rw [houtcome] at hresult
    exact hok _ _ hs a _ hresult
  | error failure =>
    rw [houtcome] at hresult
    exact fun failure => hfails _ _ hs failure _ hresult

variable (h : platform.Shows images)
include h

private theorem Platform.Shows.ensures_write {address : UInt32} {bytes : Bytes}
    (hok : ∀ accesses image, pre accesses image →
      post (accesses ++ [.write address bytes (.ok ())]) (image.store address bytes))
    (hfails : ∀ accesses image, pre accesses image → ∀ failure k,
      failed (accesses ++ [.write address bytes (.error failure)]) (image.store address (bytes.take k))) :
    Attempt.Ensures (Stage images process pre) ((Journal.platform platform).write process address bytes)
      (fun _ => Stage images process post) (Stage images process failed) := by
  refine @Journal.ensures_staged _ _ images process pre failed _ (.write address bytes) _ (fun _ => post)
    (fun image _ image' => image' = image.store address bytes)
    (fun image image' => ∃ k, image' = image.store address (bytes.take k)) (h.write process address bytes) ?_ ?_
  · rintro accesses image hpre ⟨⟩ _ rfl
    exact hok accesses image hpre
  · rintro accesses image hpre failure _ ⟨k, rfl⟩
    exact hfails accesses image hpre failure k

private theorem Platform.Shows.ensures_free {base : UInt32}
    (hok : ∀ accesses image, pre accesses image → failed (accesses ++ [.free base (.ok ())]) (image.release base))
    (hfails : ∀ accesses image, pre accesses image → ∀ failure,
      failed (accesses ++ [.free base (.error failure)]) image) :
    Attempt.Ensures (Stage images process pre) ((Journal.platform platform).free process base)
      (fun _ => Stage images process failed) (Stage images process failed) := by
  refine @Journal.ensures_staged _ _ images process pre failed _ (.free base) _ (fun _ => failed)
    (fun image _ image' => image' = image.release base) (fun image image' => image' = image) (h.free process base) ?_ ?_
  · rintro accesses image hpre ⟨⟩ _ rfl
    exact hok accesses image hpre
  · rintro accesses image hpre failure _ rfl
    exact hfails accesses _ hpre failure

private theorem Platform.Shows.ensures_allocate {size : Nat} {post : UInt32 → List Access → Image → Prop}
    (hok : ∀ accesses image, pre accesses image → ∀ base n, size ≤ n → image.Free base n →
      post base (accesses ++ [.allocate size (.ok base)]) (image.allocate base n))
    (hfails : ∀ accesses image, pre accesses image → ∀ failure,
      failed (accesses ++ [.allocate size (.error failure)]) image) :
    Attempt.Ensures (Stage images process pre) ((Journal.platform platform).allocate process size)
      (fun base => Stage images process (post base)) (Stage images process failed) := by
  refine @Journal.ensures_staged _ _ images process pre failed _ (.allocate size) _ post
    (fun image base image' => ∃ n, size ≤ n ∧ image.Free base n ∧ image' = image.allocate base n)
    (fun image image' => image' = image) (h.allocate process size) ?_ ?_
  · rintro accesses image hpre base _ ⟨n, hsize, hfree, rfl⟩
    exact hok accesses image hpre base n hsize hfree
  · rintro accesses image hpre failure _ rfl
    exact hfails accesses _ hpre failure

end Rules

/-! ### Undoing -/

section Undoing

variable {before image : Image} {base : UInt32} {n k : Nat} {undo : List (Snapshot × Except Failure Unit)}
  {s : Snapshot} {remaining : List Snapshot} {failure : Failure}

private theorem lost_append_ok : lost (undo ++ [(s, .ok ())]) = lost undo := by
  simp [lost, Except.isOk, Except.toBool]

private theorem lost_append_error : lost (undo ++ [(s, .error failure)]) = lost undo ++ [s] := by
  simp [lost, Except.isOk, Except.toBool]

private theorem lost_eq_nil (h : ∀ one ∈ undo, one.2.isOk = true) : lost undo = [] := by
  unfold lost
  rw [List.filter_eq_nil_iff.2 fun one hone => by simp [h one hone], List.map_nil]

theorem exists_error_of_isOk {one : Snapshot × Except Failure Unit} (h : one.2.isOk = false) :
    ∃ failure, one = (one.1, .error failure) := by
  obtain ⟨s, result⟩ := one
  cases result with
  | ok _ => cases h
  | error failure => exact ⟨failure, rfl⟩

theorem mem_lost (h : s ∈ lost undo) : ∃ failure, (s, .error failure) ∈ undo := by
  obtain ⟨one, hone, rfl⟩ := List.mem_map.1 h
  obtain ⟨hmem, hfailed⟩ := List.mem_filter.1 hone
  obtain ⟨failure, heq⟩ := exists_error_of_isOk (by simpa using hfailed)
  exact ⟨failure, heq ▸ hmem⟩

/-- After the accesses `front`, the sites `undo` were to be put back, and those in `remaining` are next. What may still
be changed is at those that could not be put back, and at those that are next. -/
structure PuttingBack (before : Image) (base : UInt32) (n : Nat) (front : List Access)
    (undo : List (Snapshot × Except Failure Unit)) (remaining : List Snapshot) (accesses : List Access)
    (image : Image) : Prop where
  accesses : accesses = front ++ undo.map .toPutBack
  patched : before.Patched base n (AtSites (lost undo ++ remaining)) image

namespace PuttingBack

variable {front accesses : List Access} (h : PuttingBack before base n front undo (s :: remaining) accesses image)
  (hlength : s.code.bytes.length = 6)
include h hlength

/-- A site is put back. -/
private theorem next_ok (hread : before.read? s.code.base 6 = some s.code.bytes) :
    PuttingBack before base n front (undo ++ [(s, .ok ())]) remaining
      (accesses ++ [.write s.code.base s.code.bytes (.ok ())]) (image.store s.code.base s.code.bytes) := by
  refine ⟨?_, ?_⟩
  · rw [h.accesses, List.map_append, List.append_assoc]
    rfl
  rw [← hlength] at hread
  rw [lost_append_ok]
  refine (h.patched.put_back hread).mono ?_
  rintro a ⟨⟨t, ht, hin⟩, hnot⟩
  rw [hlength] at hnot
  refine ⟨t, ?_, hin⟩
  rcases List.mem_append.1 ht with ht | ht
  · exact List.mem_append_left _ ht
  · rcases List.mem_cons.1 ht with rfl | ht
    · exact absurd hin hnot
    · exact List.mem_append_right _ ht

/-- Some of a site's own code is put back. -/
private theorem next_error : PuttingBack before base n front (undo ++ [(s, .error failure)]) remaining
    (accesses ++ [.write s.code.base s.code.bytes (.error failure)])
    (image.store s.code.base (s.code.bytes.take k)) := by
  refine ⟨?_, ?_⟩
  · rw [h.accesses, List.map_append, List.append_assoc]
    rfl
  rw [lost_append_error, List.append_assoc]
  refine h.patched.store fun a ha => .inr ⟨s, List.mem_append_right _ (List.mem_cons_self ..), ?_⟩
  refine Nat.lt_of_lt_of_le ha ?_
  rw [List.length_take, hlength]
  exact Nat.min_le_right ..

end PuttingBack

variable {σ π : Type} {platform : Platform σ π} {images : σ → π → Image} {process : π} {snapshots : List Snapshot}
  {done rest : List (SiteLayout × Snapshot)} {pair : SiteLayout × Snapshot} {accesses : List Access}
  {undone : List (Snapshot × Bool)}

/-- The redirection of a site failed, and of the sites up to it `undone` were to be put back. -/
def Undoing (snapshots : List Snapshot) (before : Image) (base : UInt32) (done : List (SiteLayout × Snapshot))
    (pair : SiteLayout × Snapshot) (undone : List (Snapshot × Bool)) (accesses : List Access) (image : Image) : Prop :=
  ∃ n failure undo remaining, before.Room snapshots base n ∧ undo.map (fun one => (one.1, one.2.isOk)) = undone ∧
    undone.map (·.1) ++ remaining = (done ++ [pair]).map (·.2) ∧
    PuttingBack before base n (breaking snapshots base done pair failure) undo remaining accesses image

/-- In the end all of these sites were to be put back. -/
private theorem Undoing.finish (h : Undoing snapshots before base done pair undone accesses image)
    (hpairs : done ++ pair :: rest = Head.pairs snapshots) (hdone : undone.map (·.1) = (done ++ [pair]).map (·.2)) :
    ∃ broken : Broken snapshots before, broken.base = base ∧ accesses = broken.accesses ∧
      broken.undo.map (fun one => (one.1, one.2.isOk)) = undone ∧
      before.Patched base broken.n (AtSites (lost broken.undo)) image := by
  obtain ⟨n, failure, undo, remaining, hroom, rfl, hrest, hback⟩ := h
  obtain rfl : remaining = [] := List.append_right_eq_self.1 (hrest.trans hdone.symm)
  have hpatched := hback.patched
  rw [List.append_nil] at hpatched
  rw [List.map_map] at hdone
  exact ⟨⟨base, n, done, pair, rest, failure, undo, hroom, hpairs, hdone⟩, rfl, hback.accesses, rfl, hpatched⟩

private theorem Platform.Shows.ensures_putBack (h : platform.Shows images) {remaining : List Snapshot}
    (hrest : undone.map (·.1) ++ s :: remaining = (done ++ [pair]).map (·.2)) (hlength : s.code.bytes.length = 6)
    (hread : before.read? s.code.base 6 = some s.code.bytes) :
    Attempt.Ensures (Stage images process (Undoing snapshots before base done pair undone))
      ((Journal.platform platform).write process s.code.base s.code.bytes)
      (fun _ => Stage images process (Undoing snapshots before base done pair (undone ++ [(s, true)])))
      (Stage images process (Undoing snapshots before base done pair (undone ++ [(s, false)]))) := by
  have hlater : ∀ success : Bool, (undone ++ [(s, success)]).map (·.1) ++ remaining = (done ++ [pair]).map (·.2) := by
    intro success
    rwa [List.map_append, List.append_assoc]
  refine h.ensures_write (fun accesses image hback => ?_) fun accesses image hback error k => ?_
  · obtain ⟨n, failure, undo, remaining', hroom, rfl, hrest', hback⟩ := hback
    obtain rfl := List.append_cancel_left (hrest'.trans hrest.symm)
    exact ⟨n, failure, undo ++ [(s, .ok ())], remaining, hroom, List.map_append, hlater true,
      hback.next_ok hlength hread⟩
  · obtain ⟨n, failure, undo, remaining', hroom, rfl, hrest', hback⟩ := hback
    obtain rfl := List.append_cancel_left (hrest'.trans hrest.symm)
    exact ⟨n, failure, undo ++ [(s, .error error)], remaining, hroom, List.map_append, hlater false,
      hback.next_error hlength⟩

private theorem Platform.Shows.ensures_rollback (h : platform.Shows images)
    (hpairs : done ++ pair :: rest = Head.pairs snapshots)
    (hcode : ∀ s ∈ snapshots, s.code.isPlaced = true ∧ s.code.bytes.length = 6 ∧
      before.read? s.code.base 6 = some s.code.bytes) :
    Action.Ensures (Stage images process (Undoing snapshots before base done pair []))
      ((Journal.platform platform).rollback process ((done ++ [pair]).map (·.2)) base)
      fun _ => Stage images process fun accesses image => Unwound snapshots before image accesses := by
  have hmem : ∀ undone s remaining, List.map Prod.fst (undone : List (Snapshot × Bool)) ++ s :: remaining =
      (done ++ [pair]).map (·.2) → s ∈ snapshots := by
    intro undone s remaining hrest
    have hs : s ∈ (done ++ [pair]).map (·.2) := hrest ▸ List.mem_append_right _ (List.mem_cons_self ..)
    exact Head.subset_of_pairs hpairs hs
  refine Platform.ensures_rollback (fun undone => Stage images process (Undoing snapshots before base done pair undone))
    (fun undone s remaining hrest => ?_) (fun undone s remaining hrest hunplaced => ?_) (fun undone hdone hall => ?_)
    (fun undone hdone hall w hw => ?_)
  · obtain ⟨-, hlength, hread⟩ := hcode s (hmem undone s remaining hrest)
    exact h.ensures_putBack hrest hlength hread
  · rw [(hcode s (hmem undone s remaining hrest)).1] at hunplaced
    cases hunplaced
  · have hok : ∀ broken : Broken snapshots before, broken.undo.map (fun one => (one.1, one.2.isOk)) = undone →
        ∀ one ∈ broken.undo, one.2.isOk = true := by
      rintro broken rfl one hone
      exact List.all_eq_true.1 hall _ (List.mem_map_of_mem hone)
    have hnone : ∀ {undo a}, lost undo = [] → AtSites (lost undo) a → False := by
      rintro undo a hlost ⟨s, hs, -⟩
      rw [hlost] at hs
      cases hs
    refine h.ensures_free (fun accesses image hw => ?_) fun accesses image hw error => ?_
    · obtain ⟨broken, rfl, rfl, hundo, hpatched⟩ := hw.finish hpairs hdone
      have hclean := hpatched.mono fun a => hnone (lost_eq_nil (hok broken hundo))
      refine .putBack broken (.ok ()) (hok broken hundo) ?_
      rw [hclean.release_eq broken.room.free]
      exact ⟨.refl _, fun _ _ => rfl⟩
    · obtain ⟨broken, rfl, rfl, hundo, hpatched⟩ := hw.finish hpairs hdone
      have hclean := hpatched.mono fun a => hnone (lost_eq_nil (hok broken hundo))
      exact .putBack broken (.error error) (hok broken hundo) ⟨hclean.keeps broken.room.free, nofun⟩
  · obtain ⟨broken, rfl, haccesses, rfl, hpatched⟩ := Undoing.finish hw hpairs hdone
    obtain ⟨one, hone, hfailed⟩ := List.all_eq_false.1 hall
    obtain ⟨lost, hlost, rfl⟩ := List.mem_map.1 hone
    show Unwound _ _ _ _
    rw [haccesses]
    exact .kept broken ⟨lost, hlost, Bool.eq_false_of_not_eq_true hfailed⟩ hpatched

end Undoing

/-! ### Attaching -/

section Attaching

variable {platform : Platform σ π} {images : σ → π → Image} {seen : π → Image} {candidate : Candidate π}

theorem Candidate.Verified.holds (h : candidate.Verified (Image.sight seen)) : ∀ s ∈ candidate.snapshots,
    s.code.isPlaced = true ∧ s.code.bytes.length = 6 ∧
      (seen candidate.process).read? s.code.base 6 = some s.code.bytes := by
  intro s hs
  obtain ⟨hplaced, hread⟩ := h.code s hs
  have hlength := Build.length_snapshots (h.snapshots ▸ hs)
  rw [hlength] at hread
  exact ⟨hplaced, hlength, hread⟩

private theorem Platform.Shows.ensures_close (h : platform.Shows images) {process : π}
    {pre : List Access → Image → Prop} :
    Action.Ensures (Stage images process pre) ((Journal.platform platform).close process)
      fun _ => Stage images process fun accesses image =>
        ∃ patching, accesses = patching ++ [.close] ∧ pre patching image := by
  refine @Journal.ensures_noted _ _ (fun _ => .close) _ (fun accesses w => pre accesses (images w process))
    (fun _ accesses w => ∃ patching, accesses = patching ++ [.close] ∧ pre patching (images w process))
    fun accesses => ?_
  intro s hs
  refine ⟨accesses, rfl, ?_⟩
  rw [(h.quiet (images s.world)).close process s rfl]
  exact hs

/-! What holds between two accesses of an attempt. -/

section Stages

variable (snapshots : List Snapshot) (before : Image) (base : UInt32)

/-- The block was found. -/
def Found (accesses : List Access) (image : Image) : Prop :=
  ∃ n, before.Room snapshots base n ∧ accesses = [.toAllocate snapshots (.ok base)] ∧
    image = before.allocate base n

/-- The block could not be filled. -/
def Unfilled (accesses : List Access) (image : Image) : Prop :=
  ∃ n fill, before.Room snapshots base n ∧
    (∀ access ∈ fill, ∃ failure, access = .toFill snapshots base (.error failure)) ∧
    accesses = .toAllocate snapshots (.ok base) :: fill ∧ before.Patched base n (fun _ => False) image

/-- The sites `done` were redirected. -/
def Redirecting (done : List (SiteLayout × Snapshot)) (accesses : List Access) (image : Image) : Prop :=
  ∃ n, before.Room snapshots base n ∧ accesses = redirecting snapshots base done ∧
    before.Patched base n (AtSites (done.map (·.2))) image

/-- The last of the sites `tried` could not be redirected. -/
def Breaking (tried : List (SiteLayout × Snapshot)) (accesses : List Access) (image : Image) : Prop :=
  ∃ n done pair failure, tried = done ++ [pair] ∧ before.Room snapshots base n ∧
    accesses = breaking snapshots base done pair failure ∧ before.Patched base n (AtSites (tried.map (·.2))) image

end Stages

section Accesses

variable {snapshots : List Snapshot} {before : Image} {base : UInt32} {process : π} (h : platform.Shows images)
include h

private theorem Platform.Shows.ensures_found :
    Attempt.Ensures (Stage images process fun accesses image => accesses = [] ∧ image = before)
      ((Journal.platform platform).allocate process (Head.build snapshots).code.size)
      (fun base => Stage images process (Found snapshots before base))
      (Stage images process fun accesses image => Unwound snapshots before image accesses) := by
  refine h.ensures_allocate ?_ ?_
  · rintro accesses image ⟨rfl, rfl⟩ base n hn hfree
    exact ⟨n, ⟨hfree, hn⟩, rfl, rfl⟩
  · rintro accesses image ⟨rfl, rfl⟩ failure
    exact .unallocated failure rfl

private theorem Platform.Shows.ensures_filled
    (hsize : (Head.placed snapshots base).code.bytes.length = (Head.build snapshots).code.size) :
    Attempt.Ensures (Stage images process (Found snapshots before base))
      ((Journal.platform platform).write process base (Head.placed snapshots base).code.bytes)
      (fun _ => Stage images process (Redirecting snapshots before base []))
      (Stage images process (Unfilled snapshots before base)) := by
  have hstored : ∀ {n k}, (Head.build snapshots).code.size ≤ n → before.Patched base n (fun _ => False)
      ((before.allocate base n).store base ((Head.placed snapshots base).code.bytes.take k)) := by
    refine fun {n k} hn => (before.patched_allocate base n _).store fun a ha => .inl (Nat.lt_of_lt_of_le ha ?_)
    rw [List.length_take, hsize]
    omega
  refine h.ensures_write ?_ ?_
  · rintro accesses image ⟨n, hroom, rfl, rfl⟩
    have hall := hstored (k := (Head.placed snapshots base).code.bytes.length) hroom.size
    rw [List.take_length] at hall
    exact ⟨n, hroom, rfl, hall.mono fun _ => False.elim⟩
  · rintro accesses image ⟨n, hroom, rfl, rfl⟩ failure k
    exact ⟨n, [.toFill snapshots base (.error failure)], hroom, List.forall_mem_singleton.2 ⟨failure, rfl⟩, rfl,
      hstored hroom.size⟩

private theorem Platform.Shows.ensures_unfilled :
    Attempt.Ensures (Stage images process (Unfilled snapshots before base))
      ((Journal.platform platform).free process base)
      (fun _ => Stage images process fun accesses image => Unwound snapshots before image accesses)
      (Stage images process fun accesses image => Unwound snapshots before image accesses) := by
  refine h.ensures_free ?_ ?_
  · rintro accesses image ⟨n, fill, hroom, hfill, rfl, hpatched⟩
    refine .unfilled base fill (.ok ()) hfill ?_
    rw [hpatched.release_eq hroom.free]
    exact ⟨.refl _, fun _ _ => rfl⟩
  · rintro accesses image ⟨n, fill, hroom, hfill, rfl, hpatched⟩ failure
    exact .unfilled base fill (.error failure) hfill ⟨hpatched.keeps hroom.free, nofun⟩

private theorem Platform.Shows.ensures_redirected (done : List (SiteLayout × Snapshot)) (pair : SiteLayout × Snapshot) :
    Attempt.Ensures (Stage images process (Redirecting snapshots before base done))
      ((Journal.platform platform).write process pair.2.code.base
        (redirect pair.2.code.base ((Head.placed snapshots base).wrapperAddress pair.1)).bytes)
      (fun _ => Stage images process (Redirecting snapshots before base (done ++ [pair])))
      (Stage images process (Breaking snapshots before base (done ++ [pair]))) := by
  -- also a part of the jump goes to the site
  have hstored : ∀ {n k image} {jump : Bytes}, jump.length = 5 →
      before.Patched base n (AtSites (done.map (·.2))) image →
      before.Patched base n (AtSites ((done ++ [pair]).map (·.2))) (image.store pair.2.code.base (jump.take k)) := by
    intro n k image jump hlength hpatched
    rw [List.map_append]
    refine (hpatched.mono ?_).store fun a ha => .inr ⟨pair.2, List.mem_append_right _ (List.mem_singleton_self _), ?_⟩
    · rintro a ⟨s, hs, hin⟩
      exact ⟨s, List.mem_append_left _ hs, hin⟩
    · refine Nat.lt_of_lt_of_le ha ?_
      rw [List.length_take, hlength]
      omega
  have hlength : ∀ wrapper, (redirect pair.2.code.base wrapper).bytes.length = 5 := fun wrapper => by
    rw [bytes_redirect]
    rfl
  refine h.ensures_write ?_ ?_
  · rintro accesses image ⟨n, hroom, rfl, hpatched⟩
    have hall := hstored (k := 5) (hlength ((Head.placed snapshots base).wrapperAddress pair.1)) hpatched
    rw [List.take_of_length_le (Nat.le_of_eq (hlength _))] at hall
    refine ⟨n, hroom, ?_, hall⟩
    rw [redirecting, redirecting, List.map_append]
    rfl
  · rintro accesses image ⟨n, hroom, rfl, hpatched⟩ failure k
    exact ⟨n, done, pair, failure, rfl, hroom, rfl, hstored (hlength _) hpatched⟩

end Accesses

/-- An attempt to attach that fails is unwound. -/
theorem Platform.Shows.ensures_attach (h : platform.Shows images) (hverified : candidate.Verified (Image.sight seen)) :
    Attempt.Ensures
      (Stage images candidate.process fun accesses image => accesses = [] ∧ image = seen candidate.process)
      ((Journal.platform platform).attach candidate) (fun _ _ => True)
      (Stage images candidate.process fun accesses image => ∃ patching, accesses = patching ++ [.close] ∧
        Unwound candidate.snapshots (seen candidate.process) image patching) := by
  have hcode := hverified.holds
  have hsize : ∀ base, (Head.placed candidate.snapshots base).code.bytes.length =
      (Head.build candidate.snapshots).code.size := by
    intro base
    rw [hverified.snapshots]
    exact (size_placed candidate.build candidate.moduleBase base).trans
      (size_build candidate.build candidate.moduleBase).symm
  have hunplaced : ∀ done pair rest, done ++ pair :: rest = Head.pairs candidate.snapshots →
      ¬ pair.2.code.isPlaced = false := by
    intro done pair rest hpairs
    rw [(hcode _ (Head.mem_of_pairs hpairs)).1]
    exact Bool.true_eq_false.mp
  refine (Platform.ensures_attach
    (fun base => Stage images candidate.process (Found candidate.snapshots (seen candidate.process) base))
    (fun base => Stage images candidate.process (Unfilled candidate.snapshots (seen candidate.process) base))
    (fun base done =>
      Stage images candidate.process (Redirecting candidate.snapshots (seen candidate.process) base done))
    (fun base tried =>
      Stage images candidate.process (Breaking candidate.snapshots (seen candidate.process) base tried))
    h.ensures_found (fun base => h.ensures_filled (hsize base)) (fun base _ w hw => ?_) (fun base => h.ensures_unfilled)
    (fun base done pair rest _ => h.ensures_redirected done pair)
    (fun base done pair rest hpairs hfalse => absurd hfalse (hunplaced done pair rest hpairs))
    (fun base done pair rest hpairs => ?_) h.ensures_close).post_mono
    fun _ _ _ => trivial
  · -- a block without an address is not filled
    obtain ⟨n, hroom, haccesses, himage⟩ := hw
    refine ⟨n, [], hroom, nofun, haccesses, ?_⟩
    rw [himage]
    exact Image.patched_allocate ..
  · refine (h.ensures_rollback hpairs hcode).mono ?_ fun _ _ hw => hw
    rintro w ⟨n, done', pair', failure, htried, hroom, haccesses, hpatched⟩
    obtain ⟨rfl, hpair⟩ := List.append_inj' htried rfl
    obtain rfl := List.head_eq_of_cons_eq hpair
    refine ⟨n, failure, [], _, hroom, rfl, List.nil_append _, ?_, hpatched⟩
    rw [haccesses, List.map_nil, List.append_nil]

end Attaching

end LoadRemover
