import LoadRemover.Proofs.Footprints
import LoadRemover.Proofs.Merging

/-!
# Installing code, or not

Installing allocates a block, writes the code that was moved there, and releases the block again if this fails.
`Platform.Installs` has one case for each way in which this can go, with all accesses and all states in between, on any
platform. For processes kept in memory it is then known what is left of it (`InMemory.install_all_or_nothing`):

* after a success, the one new block with the code in it (`InMemory.Target.Extended`);
* after a failure, nothing but a block that could not be released (`InMemory.Target.Uninstalled`).
-/

namespace LoadRemover

private theorem Code.isPlaced_iff {code : Code} : code.isPlaced = true ↔ code.base ≠ unplaced := bne_iff_ne

/-! ### On any platform -/

section Traces

variable {σ π : Type}

/-- The ways in which installing can go: the accesses, the result and the world that it leaves. -/
inductive Platform.Installs (platform : Platform σ π) (process : π) (code : Code) (s : Traced σ) :
    List Access → Code × Except Failure UInt32 → σ → Prop where
  | refused {failure : Failure} {s₁ : Traced σ}
      (allocate : (platform.allocate process code.size).outcome s = (.error failure, s₁)) :
      Installs platform process code s [.allocate code.size (.error failure)] (code, .error failure) s₁.world
  | unplaced {s₁ : Traced σ} {freed : Except Failure Unit} {s₂ : Traced σ}
      (allocate : (platform.allocate process code.size).outcome s = (.ok Code.unplaced, s₁))
      (free : (platform.free process Code.unplaced).outcome s₁ = (freed, s₂)) :
      Installs platform process code s [.allocate code.size (.ok Code.unplaced), .free Code.unplaced freed]
        (code.moveTo Code.unplaced, .error .notPlaced) s₂.world
  | unwritten {a : UInt32} {s₁ : Traced σ} {failure : Failure} {s₂ : Traced σ} {freed : Except Failure Unit}
      {s₃ : Traced σ} (placed : a ≠ Code.unplaced)
      (allocate : (platform.allocate process code.size).outcome s = (.ok a, s₁))
      (write : (platform.write process a (code.moveTo a).bytes).outcome s₁ = (.error failure, s₂))
      (free : (platform.free process a).outcome s₂ = (freed, s₃)) :
      Installs platform process code s
        [.allocate code.size (.ok a), .write a (code.moveTo a).bytes (.error failure), .free a freed]
        (code.moveTo a, .error failure) s₃.world
  | written {a : UInt32} {s₁ s₂ : Traced σ} (placed : a ≠ Code.unplaced)
      (allocate : (platform.allocate process code.size).outcome s = (.ok a, s₁))
      (write : (platform.write process a (code.moveTo a).bytes).outcome s₁ = (.ok (), s₂)) :
      Installs platform process code s [.allocate code.size (.ok a), .write a (code.moveTo a).bytes (.ok ())]
        (code.moveTo a, .ok a) s₂.world

namespace Platform

variable {platform : Platform σ π} {process : π} {code : Code} {s s₁ s₂ s₃ : Traced σ} {a : UInt32}
  {failure : Failure}

private theorem writeCode_unplaced (h : code.base = Code.unplaced) :
    (platform.writeCode process code).outcome s = (.error .notPlaced, s) := by
  have hplaced : code.isPlaced = false := Bool.eq_false_iff.2 fun hplaced => Code.isPlaced_iff.1 hplaced h
  unfold writeCode
  simp only [hplaced]
  rfl

private theorem writeCode_placed (h : code.base ≠ Code.unplaced) : platform.writeCode process code =
    platform.write process code.base code.bytes >>= fun _ => pure code.base := by
  have hplaced : code.isPlaced = true := Code.isPlaced_iff.2 h
  unfold writeCode
  simp only [hplaced]
  rfl

private theorem writeCode_error (h : code.base ≠ Code.unplaced)
    (hwrite : (platform.write process code.base code.bytes).outcome s = (.error failure, s₁)) :
    (platform.writeCode process code).outcome s = (.error failure, s₁) := by
  rw [writeCode_placed h, Attempt.outcome_bind, Action.bind_apply, hwrite]
  rfl

private theorem writeCode_ok (h : code.base ≠ Code.unplaced)
    (hwrite : (platform.write process code.base code.bytes).outcome s = (.ok (), s₁)) :
    (platform.writeCode process code).outcome s = (.ok code.base, s₁) := by
  rw [writeCode_placed h, Attempt.outcome_bind, Action.bind_apply, hwrite]
  rfl

private theorem install_refused (h : (platform.allocate process code.size).outcome s = (.error failure, s₁)) :
    platform.install process code s = ((code, .error failure), s₁) := by
  unfold install
  rw [Action.bind_apply, h]
  rfl

/-- If the code cannot be written, the block is released, whether this succeeds or not. -/
private theorem install_unwritten (hallocate : (platform.allocate process code.size).outcome s = (.ok a, s₁))
    (hwrite : (platform.writeCode process (code.moveTo a)).outcome s₁ = (.error failure, s₂))
    {freed : Except Failure Unit} (hfree : (platform.free process a).outcome s₂ = (freed, s₃)) :
    (platform.install process code s).1 = (code.moveTo a, .error failure) ∧
      (platform.install process code s).2.world = s₃.world := by
  unfold install
  rw [Action.bind_apply, hallocate]
  simp only [Action.bind_apply, hwrite, hfree]
  cases freed <;> exact ⟨rfl, rfl⟩

private theorem install_written (hallocate : (platform.allocate process code.size).outcome s = (.ok a, s₁))
    {base : UInt32} (hwrite : (platform.writeCode process (code.moveTo a)).outcome s₁ = (.ok base, s₂)) :
    (platform.install process code s).1 = (code.moveTo a, .ok a) ∧
      (platform.install process code s).2.world = s₂.world := by
  unfold install
  rw [Action.bind_apply, hallocate]
  simp only [Action.bind_apply, hwrite]
  exact ⟨rfl, rfl⟩

end Platform

/-- An access on a list of accesses does what it does without, and comes last on it. -/
private theorem Journal.outcome_attempted {α : Type} {describe : Except Failure α → Access} {attempt : Attempt σ α}
    {s s₁ : Traced σ} {answer : Except Failure α} (h : attempt.outcome s = (answer, s₁)) (accesses : List Access) :
    (Journal.attempted describe attempt).outcome ⟨⟨s.world, accesses⟩, s.log⟩ =
      (answer, ⟨⟨s₁.world, accesses ++ [describe answer]⟩, s₁.log⟩) := by
  have hrun : (Journal.attempted describe attempt).outcome ⟨⟨s.world, accesses⟩, s.log⟩ =
      ((attempt.outcome s).1, ⟨⟨(attempt.outcome s).2.world, accesses ++ [describe (attempt.outcome s).1]⟩,
        (attempt.outcome s).2.log⟩) := rfl
  rw [hrun, h]

/-- An access fails where the schedule says so, and otherwise it does what it does without a schedule. -/
private theorem Faulty.outcome_guarded {α : Type} (pid : UInt32) (operation : Operation) (attempt : Attempt σ α)
    (s : Traced (Faulty σ)) :
    (guarded pid operation attempt).outcome s =
      match s.world.schedule.meet (pid, operation) with
      | (some failure, schedule) => (.error failure, ⟨⟨s.world.world, schedule⟩, s.log⟩)
      | (none, schedule) =>
        let outcome := attempt.outcome ⟨s.world.world, s.log⟩
        (outcome.1, ⟨⟨outcome.2.world, schedule⟩, outcome.2.log⟩) := by
  have hcheck : check pid operation s =
      ((s.world.schedule.meet (pid, operation)).1,
        ⟨⟨s.world.world, (s.world.schedule.meet (pid, operation)).2⟩, s.log⟩) := rfl
  unfold guarded
  change (check pid operation >>= _) s = _
  rw [Action.bind_apply, hcheck]
  rcases s.world.schedule.meet (pid, operation) with ⟨_ | failure, schedule⟩ <;> rfl

/-- Installing goes in one of the ways. -/
private theorem Platform.installs (platform : Platform σ π) (process : π) (code : Code) (s : Traced σ) :
    platform.Installs process code s (platform.accesses (fun platform => platform.install process code) s)
      (platform.install process code s).1 (platform.install process code s).2.world := by
  change platform.Installs process code s
    ((Journal.platform platform).install process code (Journal.start s)).2.world.accesses _ _
  rcases hallocate : (platform.allocate process code.size).outcome s with ⟨failure | a, s₁⟩
  · have hlisted : ((Journal.platform platform).allocate process code.size).outcome (Journal.start s) = _ :=
      Journal.outcome_attempted hallocate []
    rw [install_refused hlisted, install_refused hallocate]
    exact .refused hallocate
  have hlisted : ((Journal.platform platform).allocate process code.size).outcome (Journal.start s) = _ :=
    Journal.outcome_attempted hallocate []
  by_cases hplaced : a = Code.unplaced
  · -- an address that means none
    subst hplaced
    have hunplaced : (code.moveTo Code.unplaced).base = Code.unplaced := rfl
    rcases hfree : (platform.free process Code.unplaced).outcome s₁ with ⟨freed, s₂⟩
    obtain ⟨hresult, hworld⟩ := install_unwritten hallocate (writeCode_unplaced hunplaced) hfree
    obtain ⟨-, haccesses⟩ := install_unwritten hlisted (writeCode_unplaced hunplaced)
      (Journal.outcome_attempted hfree _)
    rw [haccesses, hresult, hworld]
    exact .unplaced hallocate hfree
  have hbase : (code.moveTo a).base ≠ Code.unplaced := hplaced
  rcases hwrite : (platform.write process a (code.moveTo a).bytes).outcome s₁ with ⟨failure | done, s₂⟩
  · rcases hfree : (platform.free process a).outcome s₂ with ⟨freed, s₃⟩
    obtain ⟨hresult, hworld⟩ := install_unwritten hallocate (writeCode_error hbase hwrite) hfree
    obtain ⟨-, haccesses⟩ := install_unwritten hlisted
      (writeCode_error hbase (Journal.outcome_attempted hwrite _)) (Journal.outcome_attempted hfree _)
    rw [haccesses, hresult, hworld]
    exact .unwritten hplaced hallocate hwrite hfree
  · obtain ⟨hresult, hworld⟩ := install_written hallocate (writeCode_ok hbase hwrite)
    obtain ⟨-, haccesses⟩ := install_written hlisted
      (writeCode_ok hbase (Journal.outcome_attempted hwrite _))
    rw [haccesses, hresult, hworld]
    exact .written hplaced hallocate hwrite

private theorem Platform.Installs.placed {platform : Platform σ π} {process : π} {code code' : Code} {s : Traced σ}
    {a : UInt32} {accesses : List Access} {w : σ} (h : platform.Installs process code s accesses (code', .ok a) w) :
    a ≠ Code.unplaced := by
  cases h
  assumption

private theorem Platform.holdsCode_of_read {platform : Platform σ π} {process : π} {code : Code} {s s₁ : Traced σ}
    (h : code.base ≠ Code.unplaced) {live : Bytes}
    (hread : (platform.read process code.base code.bytes.length).outcome s = (.ok live, s₁)) :
    (platform.holdsCode process code).outcome s = (.ok (live == code.bytes), s₁) := by
  have hplaced : code.isPlaced = true := Code.isPlaced_iff.2 h
  have hbind : platform.holdsCode process code =
      platform.read process code.base code.bytes.length >>= fun live => pure (live == code.bytes) := by
    unfold Platform.holdsCode
    simp only [hplaced]
    rfl
  rw [hbind, Attempt.outcome_bind, Action.bind_apply, hread]
  rfl

end Traces

private theorem Region.write_nil (region : Region) (a : Nat) : region.write a [] = region := by
  have hcontent : (fun i => if a - region.base ≤ i ∧ i < a - region.base + ([] : Bytes).length then
      ([] : Bytes).getD (i - (a - region.base)) 0 else region.content i) = region.content := by
    funext i
    rw [if_neg]
    simp only [List.length_nil]
    omega
  rw [Region.write, hcontent]

namespace InMemory

/-! ### What can be done to a process -/

private theorem pokeIn_nil {rs rs' : List Region} {a : Nat} (h : pokeIn rs a [] = some rs') : rs' = rs := by
  induction rs generalizing rs' with
  | nil => simp [pokeIn] at h
  | cons r rest ih =>
    simp only [pokeIn] at h
    split at h
    · obtain rfl := Option.some.inj h
      rw [Region.write_nil]
    · obtain ⟨rest', hrest, rfl⟩ := Option.map_eq_some_iff.1 h
      rw [ih hrest]

namespace Target

variable {origin t t' : Target} {a : UInt32} {bytes : Bytes}

/-- What a test can do to a process that was made. -/
inductive Use where
  | write (address : UInt32) (bytes : Bytes)
  | allocate (size : Nat)
  | free (address : UInt32)
  | poke (address : UInt32) (bytes : Bytes)
  | kill
  | refuseReads (refuse : Bool)
  | refuseWrite (n : Nat)

def use (t : Target) : Use → Target
  | .write address bytes => (t.write address bytes).2
  | .allocate size => (t.allocate size).2
  | .free address => (t.free address).2
  | .poke address bytes => (t.poke? address bytes).getD t
  | .kill => t.kill
  | .refuseReads refuse => { t with refuseReads := refuse }
  | .refuseWrite n => t.refuseWrite n

def useAll (t : Target) (uses : List Use) : Target := uses.foldl use t

theorem turns_use (t : Target) (one : Use) : t.Turns (t.use one) := by
  cases one with
  | write address bytes => exact (t.write_spec address bytes).1.turns
  | allocate size =>
    rcases t.allocate_cases size with ⟨failure, hsame⟩ | ⟨pages, hpages, hlend⟩
    · rw [use, hsame]
      exact (SameShape.refl t).turns
    · rw [use, hlend]
      exact t.turns_lend size hpages
  | free address => exact t.turns_free address
  | poke address bytes =>
    rw [use]
    cases hpoke : t.poke? address bytes with
    | none => exact (SameShape.refl t).turns
    | some t' => exact (pokeIn_of_poke? hpoke).1.turns
  | kill => exact SameShape.turns ⟨rfl, rfl, rfl, rfl⟩
  | refuseReads refuse => exact SameShape.turns ⟨rfl, rfl, rfl, rfl⟩
  | refuseWrite n => exact SameShape.turns ⟨rfl, rfl, rfl, rfl⟩

/-- Whatever is done to a process, its blocks lie below the next address. -/
private theorem below_useAll (h : ∀ block ∈ t.blocks, block.base < t.nextBlock) (uses : List Use) :
    ∀ block ∈ (t.useAll uses).blocks, block.base < (t.useAll uses).nextBlock := by
  induction uses generalizing t with
  | nil => exact h
  | cons one rest ih =>
    have hlends : t.Lends fun _ _ => False := ⟨h, nofun⟩
    exact ih (hlends.turns (t.turns_use one)).below

/-! ### One block more, or none -/

/-- In the second process there is one block more, which holds the bytes. All other memory is as it was: what no
region of its own hides can be read as before, and if the new block overlaps no region, these are the same. -/
structure Extended (t : Target) (bytes : Bytes) (a : UInt32) (t' : Target) : Prop where
  address : a.toNat = t.nextBlock
  new : t.isAllocated a = false
  mapped : t'.mapped.map Region.extent = t.mapped.map Region.extent
  blocks : t'.blocks.map Region.extent = t.blocks.map Region.extent ++ [(a.toNat, bytes.length)]
  holds : t'.peek? a bytes.length = some bytes
  others : ∀ (b : UInt32) (n : Nat), 0 < n → (∀ i < n, ¬ (Region.ofBytes a.toNat bytes).Has (b.toNat + i)) →
    t'.peek? b n = t.peek? b n
  apart : (∀ region ∈ t.regions, region.Disjoint (Region.ofBytes a.toNat bytes)) →
    t'.mapped = t.mapped ∧ ∃ block, t'.blocks = t.blocks ++ [block]

/-- In the second process nothing has changed, but for a block of zeros if one is left. -/
structure Uninstalled (t : Target) (size : Nat) (left : Prop) (t' : Target) : Prop where
  mapped : t'.mapped = t.mapped
  released : ¬ left → t'.blocks = t.blocks
  kept : left → t'.blocks = t.blocks ++ [.zeros t.nextBlock size]

/-- Every byte of before is there. -/
private theorem Uninstalled.peek? {left : Prop} {size n : Nat} (h : t.Uninstalled size left t')
    (hbytes : t.peek? a n = some bytes) : t'.peek? a n = some bytes := by
  change peekIn (t.mapped ++ t.blocks) a.toNat n = some bytes at hbytes
  change peekIn (t'.mapped ++ t'.blocks) a.toNat n = some bytes
  rw [h.mapped]
  by_cases hleft : left
  · rw [h.kept hleft, ← List.append_assoc, peekIn_append, hbytes]
    rfl
  · rw [h.released hleft]
    exact hbytes

/-- Regions that are where they were are told apart by their number. -/
private theorem SameShape.split (h : t.SameShape t') {mapped blocks : List Region}
    (hregions : t'.regions = mapped ++ blocks)
    (hlength : mapped.length = t.mapped.length) : t'.mapped = mapped ∧ t'.blocks = blocks := by
  refine List.append_inj hregions ?_
  have hsame := congrArg List.length h.mapped
  rw [List.length_map, List.length_map] at hsame
  rw [hsame, hlength]

private theorem uninstalled_lend (t : Target) (size pages : Nat) : t.Uninstalled size True (t.lend size pages) :=
  ⟨rfl, fun h => absurd trivial h, fun _ => rfl⟩

private theorem uninstalled_of_write {size : Nat} {failure : Failure}
    (hwrite : ((t.lend size pages).write a bytes).1 = .error failure) :
    t.Uninstalled size True ((t.lend size pages).write a bytes).2 := by
  obtain ⟨hshape, hregions⟩ := (t.lend size pages).write_spec a bytes
  rw [hwrite] at hregions
  obtain ⟨hmapped, hblocks⟩ := hshape.split hregions rfl
  exact ⟨hmapped, fun h => absurd trivial h, fun _ => hblocks⟩

/-- A new block that overlaps no region takes all of the bytes. -/
private theorem exists_block_of_poke (hapart : ∀ region ∈ t.regions, region.Disjoint (Region.ofBytes a.toNat bytes))
    {regions : List Region} {pages : Nat}
    (hpoke : pokeIn (t.lend bytes.length pages).regions a.toNat bytes = some regions) :
    ∃ block, regions = t.regions ++ [block] := by
  have hsplit : (t.lend bytes.length pages).regions = t.regions ++ [.zeros t.nextBlock bytes.length] :=
    (List.append_assoc ..).symm
  by_cases hempty : bytes = []
  · subst hempty
    exact ⟨.zeros t.nextBlock 0, (pokeIn_nil hpoke).trans hsplit⟩
  · have hlength := List.length_pos_of_ne_nil hempty
    have hnone : pokeIn t.regions a.toNat bytes = none := by
      refine pokeIn_eq_none_iff.2 fun region hregion => Bool.eq_false_iff.2 fun hcovers => ?_
      have hhas := Region.has_of_covers hcovers hlength
      refine hapart region hregion _ hhas ?_
      simp only [Region.Has, Region.ofBytes]
      omega
    rw [hsplit, pokeIn_append, hnone, Option.map_none, Option.none_or] at hpoke
    obtain ⟨last, hlast, hregions⟩ := Option.map_eq_some_iff.1 hpoke
    simp only [pokeIn] at hlast
    split at hlast
    · obtain rfl := Option.some.inj hlast
      exact ⟨_, hregions.symm⟩
    · cases hlast

section Lending

variable {pages : Nat} (haddress : a.toNat = t.nextBlock)
include haddress

private theorem peek?_lend {b : UInt32} {n : Nat} (hn : 0 < n)
    (hout : ∀ i < n, ¬ (Region.ofBytes a.toNat bytes).Has (b.toNat + i)) :
    (t.lend bytes.length pages).peek? b n = t.peek? b n := by
  have hnew : peekIn [.zeros t.nextBlock bytes.length] b.toNat n = none := by
    rw [peekIn_cons, if_neg]
    · rfl
    · intro hcovers
      refine hout 0 hn ?_
      rw [Region.covers_iff] at hcovers
      simp only [Region.zeros] at hcovers
      simp only [Region.Has, Region.ofBytes]
      omega
  change peekIn (t.mapped ++ (t.blocks ++ [.zeros t.nextBlock bytes.length])) b.toNat n = _
  rw [← List.append_assoc, peekIn_append, hnew, Option.or_none]
  rfl

variable (hbelow : ∀ block ∈ t.blocks, block.base < t.nextBlock)
include hbelow

private theorem isAllocated_next : t.isAllocated a = false := by
  refine List.any_eq_false.2 fun block hblock hbase => ?_
  have hlt := hbelow block hblock
  have hsame := beq_iff_eq.1 hbase
  omega

/-- Bytes that are written to the new block are all that has changed. -/
private theorem extended_of_write (hwrite : ((t.lend bytes.length pages).write a bytes).1 = .ok ()) :
    t.Extended bytes a ((t.lend bytes.length pages).write a bytes).2 := by
  obtain ⟨hshape, hpoke⟩ := (t.lend bytes.length pages).write_spec a bytes
  rw [hwrite] at hpoke
  refine ⟨haddress, isAllocated_next haddress hbelow, hshape.mapped, ?_, peekIn_of_pokeIn hpoke, ?_, ?_⟩
  · rw [hshape.blocks, haddress]
    exact List.map_append
  · intro b n hn hout
    have hlend : (t.lend bytes.length pages).peek? b n = t.peek? b n := peek?_lend haddress hn hout
    rw [← hlend]
    by_cases hempty : bytes = []
    · subst hempty
      exact peek?_congr (pokeIn_nil hpoke) b n
    · refine peekIn_of_pokeIn_apart hpoke ?_
      have hlength := List.length_pos_of_ne_nil hempty
      -- otherwise the later one of the two first addresses lies in both ranges
      by_contra hmeet
      refine hout (max a.toNat b.toNat - b.toNat) (by omega) ?_
      simp only [Region.Has, Region.ofBytes]
      omega
  · intro hapart
    obtain ⟨block, hregions⟩ := exists_block_of_poke hapart hpoke
    obtain ⟨hmapped, hblocks⟩ := hshape.split (hregions.trans (List.append_assoc ..)) rfl
    exact ⟨hmapped, block, hblocks⟩

/-- The new block can be released. -/
private theorem free_uninstalled {size : Nat} (h : t.Uninstalled size True t') :
    (t'.free a).1 = .ok () ∧ t.Uninstalled size False (t'.free a).2 := by
  have hblocks := h.kept trivial
  have hallocated : t'.isAllocated a = true := by
    unfold isAllocated
    rw [hblocks]
    simp [Region.zeros, haddress]
  have herase : (t.blocks ++ [Region.zeros t.nextBlock size]).eraseP (·.base == a.toNat) = t.blocks := by
    rw [List.eraseP_append_right]
    · simp [Region.zeros, haddress]
    · intro block hblock
      have hlt := hbelow block hblock
      simp only [beq_iff_eq]
      omega
  unfold Target.free
  rw [if_pos hallocated, hblocks, herase]
  exact ⟨rfl, h.mapped, fun _ => rfl, False.elim⟩

end Lending

end Target

/-! ### Processes of a world -/

section Worlds

variable {α : Type} {process : Handle} {pid : UInt32} {operation : Operation} {s s' : Traced (Faulty World)}
  {f : Target → Except Failure α × Target} {answer : Except Failure α}

/-- An access has been made to the process with this number, or it had to fail and has done nothing. All other
processes are as they were. -/
structure Accessed (f : Target → Except Failure α × Target) (slot : Nat) (w : World) (answer : Except Failure α)
    (w' : World) : Prop where
  others : ∀ other ≠ slot, w'.target other = w.target other
  here : (∃ failure, answer = .error failure ∧ w'.target slot = w.target slot) ∨
    answer = (f (w.target slot)).1 ∧ w'.target slot = (f (w.target slot)).2

private theorem accessed_of_outcome (habsent : (f World.absent).2 = World.absent)
    (h : (Faulty.guarded pid operation (World.platform.onTarget process f)).outcome s = (answer, s')) :
    Accessed f process.slot s.world.world answer s'.world.world := by
  have htarget := World.target_access habsent s.world.world process.slot
  rw [Faulty.outcome_guarded] at h
  generalize s.world.schedule.meet (pid, operation) = met at h
  obtain ⟨_ | failure, schedule⟩ := met
  · obtain ⟨rfl, rfl⟩ := Prod.mk.inj h
    refine ⟨fun other hother => ?_, .inr ⟨rfl, ?_⟩⟩
    · exact (htarget other).trans (if_neg hother)
    · exact (htarget process.slot).trans (if_pos rfl)
  · obtain ⟨rfl, rfl⟩ := Prod.mk.inj h
    exact ⟨fun _ _ => rfl, .inl ⟨failure, rfl, rfl⟩⟩

private theorem accessed_allocate {size : Nat} {answer : Except Failure UInt32}
    (h : (processes.allocate process size).outcome s = (answer, s')) :
    Accessed (·.allocate size) process.slot s.world.world answer s'.world.world :=
  @accessed_of_outcome _ _ process.pid .allocate _ _ _ _ rfl h

private theorem accessed_write {a : UInt32} {bytes : Bytes} {answer : Except Failure Unit}
    (h : (processes.write process a bytes).outcome s = (answer, s')) :
    Accessed (·.write a bytes) process.slot s.world.world answer s'.world.world :=
  @accessed_of_outcome _ _ process.pid .write _ _ _ _ rfl h

private theorem accessed_free {a : UInt32} {answer : Except Failure Unit}
    (h : (processes.free process a).outcome s = (answer, s')) :
    Accessed (·.free a) process.slot s.world.world answer s'.world.world :=
  @accessed_of_outcome _ _ process.pid .free _ _ _ _ rfl h

/-- What installing code has made of a process. If it gives an address, the code was moved there and is in a block of
its own. If it fails, every byte of before is there: either no block was to be had, and then the code was not moved
either, or it was moved to a block that is released again, unless this has failed as well. -/
structure AllOrNothing (t : Target) (code : Code) (accesses : List Access) (result : Code × Except Failure UInt32)
    (t' : Target) : Prop where
  success : ∀ a, result.2 = .ok a →
    result.1 = code.moveTo a ∧ (code.moveTo a).bytes.length = code.size ∧ t.Extended (code.moveTo a).bytes a t'
  bytes : ∀ failure, result.2 = .error failure →
    ∀ (b : UInt32) (n : Nat) (bytes : Bytes), t.peek? b n = some bytes → t'.peek? b n = some bytes
  failure : ∀ failure, result.2 = .error failure →
    accesses = [.allocate code.size (.error failure)] ∧ result.1 = code ∧ t' = t ∨
      ∃ a freed, accesses.head? = some (.allocate code.size (.ok a)) ∧ accesses.getLast? = some (.free a freed) ∧
        result.1 = code.moveTo a ∧ t.Uninstalled code.size (freed ≠ .ok ()) t'

variable {w₁ w₂ : World} {t : Target} {a : UInt32}

section Allocating

variable {size slot : Nat} {w : World}

/-- Where no block was to be had, nothing has changed. -/
private theorem target_of_refused {failure : Failure} (h : Accessed (·.allocate size) slot w (.error failure) w₁) :
    w₁.target slot = w.target slot := by
  rcases h.here with ⟨-, -, hsame⟩ | ⟨hanswer, htarget⟩
  · exact hsame
  · rcases (w.target slot).allocate_cases size with ⟨failure, hfails⟩ | ⟨pages, -, hlends⟩
    · rw [htarget, hfails]
    · rw [hlends] at hanswer
      cases hanswer

/-- A block that was to be had lies at the next address. -/
private theorem lent_of_accessed (h : Accessed (·.allocate size) slot w (.ok a) w₁)
    (hbound : (w.target slot).nextBlock < 2 ^ 32) :
    a.toNat = (w.target slot).nextBlock ∧ ∃ pages, w₁.target slot = (w.target slot).lend size pages := by
  rcases h.here with ⟨failure, herror, -⟩ | ⟨hanswer, htarget⟩
  · cases herror
  · rcases (w.target slot).allocate_cases size with ⟨failure, hfails⟩ | ⟨pages, -, hlends⟩
    · rw [hfails] at hanswer
      cases hanswer
    · rw [hlends] at hanswer htarget
      rw [Except.ok.inj hanswer]
      exact ⟨UInt32.toNat_ofNat_of_lt' hbound, pages, htarget⟩

end Allocating

/-- The block is released again, unless this fails. -/
private theorem uninstalled_of_accessed {slot : Nat} {size : Nat} {freed : Except Failure Unit}
    (hbelow : ∀ block ∈ t.blocks, block.base < t.nextBlock) (haddress : a.toNat = t.nextBlock)
    (hleft : t.Uninstalled size True (w₁.target slot)) (h : Accessed (·.free a) slot w₁ freed w₂) :
    t.Uninstalled size (freed ≠ .ok ()) (w₂.target slot) := by
  rcases h.here with ⟨failure, rfl, hsame⟩ | ⟨rfl, hfree⟩
  · rw [hsame]
    exact ⟨hleft.mapped, fun hok => absurd nofun hok, fun _ => hleft.kept trivial⟩
  · obtain ⟨hok, hreleased⟩ := Target.free_uninstalled haddress hbelow hleft
    rw [hfree, hok]
    exact ⟨hreleased.mapped, fun _ => hreleased.released id, fun hne => absurd rfl hne⟩

/-- A failure after which the block was to be released. -/
private theorem AllOrNothing.failed {code : Code} {accesses : List Access} {failure : Failure}
    {freed : Except Failure Unit} {t' : Target} (hleft : t.Uninstalled code.size (freed ≠ .ok ()) t')
    (hhead : accesses.head? = some (.allocate code.size (.ok a))) (hlast : accesses.getLast? = some (.free a freed)) :
    AllOrNothing t code accesses (code.moveTo a, .error failure) t' where
  success := nofun
  bytes _ _ _ _ _ hbytes := hleft.peek? hbytes
  failure _ _ := .inr ⟨a, freed, hhead, hlast, rfl, hleft⟩

/-- Every way of installing is all or nothing, and other processes are left alone. -/
private theorem allOrNothing_of_installs {code : Code} (hfit : code.Fit) {accesses : List Access}
    {result : Code × Except Failure UInt32} {w' : Faulty World}
    (h : processes.Installs process code s accesses result w') (ht : s.world.world.target process.slot = t)
    (hbelow : ∀ block ∈ t.blocks, block.base < t.nextBlock) (hbound : t.nextBlock < 2 ^ 32) :
    (∀ other ≠ process.slot, w'.world.target other = s.world.world.target other) ∧
      AllOrNothing t code accesses result (w'.world.target process.slot) := by
  subst ht
  cases h with
  | @refused failure s₁ allocate =>
    have hallocate := accessed_allocate allocate
    refine ⟨hallocate.others, ?_⟩
    rw [target_of_refused hallocate]
    refine ⟨nofun, fun _ _ _ _ _ hbytes => hbytes, fun failure' hfailure => .inl ⟨?_, rfl, rfl⟩⟩
    rw [Except.error.inj hfailure]
  | @unplaced s₁ freed s₂ allocate free =>
    have hallocate := accessed_allocate allocate
    have hfree := accessed_free free
    obtain ⟨haddress, pages, hlent⟩ := lent_of_accessed hallocate hbound
    refine ⟨fun other hother => (hfree.others other hother).trans (hallocate.others other hother), ?_⟩
    have hleft := Target.uninstalled_lend (s.world.world.target process.slot) code.size pages
    rw [← hlent] at hleft
    exact .failed (uninstalled_of_accessed hbelow haddress hleft hfree) rfl rfl
  | @unwritten a s₁ failure s₂ freed s₃ placed allocate write free =>
    have hallocate := accessed_allocate allocate
    have hwrite := accessed_write write
    have hfree := accessed_free free
    obtain ⟨haddress, pages, hlent⟩ := lent_of_accessed hallocate hbound
    refine ⟨fun other hother => (hfree.others other hother).trans
      ((hwrite.others other hother).trans (hallocate.others other hother)), ?_⟩
    have hleft : (s.world.world.target process.slot).Uninstalled code.size True
        (s₂.world.world.target process.slot) := by
      rcases hwrite.here with ⟨-, -, hsame⟩ | ⟨hfailed, htarget⟩
      · rw [hsame, hlent]
        exact Target.uninstalled_lend _ code.size pages
      · rw [hlent] at hfailed htarget
        rw [htarget]
        exact Target.uninstalled_of_write hfailed.symm
    exact .failed (uninstalled_of_accessed hbelow haddress hleft hfree) rfl rfl
  | @written a s₁ s₂ placed allocate write =>
    have hallocate := accessed_allocate allocate
    have hwrite := accessed_write write
    have hsize : (code.moveTo a).bytes.length = code.size := Code.size_moveTo hfit a
    obtain ⟨haddress, pages, hlent⟩ := lent_of_accessed hallocate hbound
    refine ⟨fun other hother => (hwrite.others other hother).trans (hallocate.others other hother), ?_⟩
    rcases hwrite.here with ⟨failure, herror, -⟩ | ⟨hdone, htarget⟩
    · cases herror
    · rw [hlent, ← hsize] at hdone htarget
      rw [htarget]
      refine ⟨fun a' ha' => ?_, nofun, nofun⟩
      obtain rfl := Except.ok.inj ha'
      exact ⟨rfl, hsize, Target.extended_of_write haddress hbelow hdone.symm⟩

/-- What is read is what the memory holds. -/
private theorem peek?_of_outcome {n : Nat} {bytes : Bytes}
    (h : (processes.read process a n).outcome s = (.ok bytes, s')) :
    (s.world.world.target process.slot).peek? a n = some bytes := by
  have hlook : Attempt.Ensures (fun w : World => w.target process.slot = s.world.world.target process.slot)
      (World.platform.read process a n) (fun bytes _ => (s.world.world.target process.slot).peek? a n = some bytes)
      fun _ => True := by
    refine Attempt.Ensures.look (fun w : World => (w.target process.slot).read a n) (fun w hw bytes hok => ?_)
      fun _ _ => trivial
    rw [hw] at hok
    exact Target.peek?_of_read hok
  have hread := Faulty.ensures_guarded hlook (fun _ _ => trivial) process.pid .read s rfl
  have hsame : (Faulty.guarded process.pid .read (World.platform.read process a n)).outcome s = (.ok bytes, s') := h
  rw [hsame] at hread
  exact hread

end Worlds

open Platform in
/-- **Installing is all or nothing.** Whatever was done to a process before, and whichever accesses fail: if installing
a buffer gives an address, the buffer was moved there and a new block of its size holds it, which a later look at it
confirms, and all else is as it was; if it fails, nothing has changed but a block that could not be released. Where
an allocator answers with the address that means none, nothing is written, the block is to be released, and the code
has no place. -/
theorem install_all_or_nothing :
    (∀ (origin : Target) (uses : List Target.Use) (recipe : Code.Recipe) (process : Handle)
      (s : Traced (Faulty World)), origin.Fresh → s.world.world.target process.slot = origin.useAll uses →
      (origin.useAll uses).nextBlock < 2 ^ 32 →
      let code := recipe.code
      let result := (processes.install process code s).1
      let s' := (processes.install process code s).2
      (∀ other ≠ process.slot, s'.world.world.target other = s.world.world.target other) ∧
        AllOrNothing (origin.useAll uses) code
          (processes.accesses (fun platform => platform.install process code) s) result
          (s'.world.world.target process.slot) ∧
        ∀ a, result.2 = .ok a → ∀ live s'', (processes.read process a code.size).outcome s' = (.ok live, s'') →
          ((processes.holdsCode process result.1).outcome s').1 = .ok true) ∧
    ∀ {σ π : Type} (platform : Platform σ π) (process : π) (code : Code) (s s₁ : Traced σ),
      (platform.allocate process code.size).outcome s = (.ok Code.unplaced, s₁) →
      ∃ freed, platform.accesses (fun platform => platform.install process code) s =
          [.allocate code.size (.ok Code.unplaced), .free Code.unplaced freed] ∧
        (platform.install process code s).1 = (code.moveTo Code.unplaced, .error .notPlaced) := by
  constructor
  · intro origin uses recipe process s hfresh ht hbound code result s'
    have hnone : ∀ block ∈ origin.blocks, block.base < origin.nextBlock := by
      rw [hfresh.blocks]
      exact nofun
    have hinstalls := processes.installs process code s
    obtain ⟨hothers, hall⟩ := allOrNothing_of_installs recipe.fit hinstalls ht (Target.below_useAll hnone uses) hbound
    refine ⟨hothers, hall, fun a hok live s'' hread => ?_⟩
    obtain ⟨hcode, hsize, hextended⟩ := hall.success a hok
    have hlive := peek?_of_outcome hread
    rw [← hsize, hextended.holds] at hlive
    have hplaced : a ≠ Code.unplaced := by
      have hresult : (processes.install process code s).1 = (result.1, .ok a) := Prod.ext rfl hok
      rw [hresult] at hinstalls
      exact hinstalls.placed
    rw [← hsize] at hread
    rw [hcode, Platform.holdsCode_of_read hplaced hread, ← Option.some.inj hlive]
    simp
  · intro σ π platform process code s s₁ hallocate
    have hinstalls := platform.installs process code s
    generalize platform.accesses (fun platform => platform.install process code) s = accesses at hinstalls ⊢
    generalize (platform.install process code s).1 = result at hinstalls ⊢
    generalize (platform.install process code s).2.world = w at hinstalls
    cases hinstalls with
    | refused allocate =>
      rw [hallocate] at allocate
      cases allocate
    | @unplaced _ freed _ allocate free => exact ⟨freed, rfl, rfl⟩
    | unwritten placed allocate write free =>
      rw [hallocate] at allocate
      cases allocate
      exact absurd rfl placed
    | written placed allocate write =>
      rw [hallocate] at allocate
      cases allocate
      exact absurd rfl placed

/-- Code with two fields comes to lie at the first address, and where the write is refused no block is left. -/
theorem install_all_or_nothing_refused :
    let origin : Target := { info := ⟨1, ""⟩, mapped := [.zeros 0x400000 0x1000] }
    let recipe : Code.Recipe :=
      { steps := [.data [0], .emit (.storeByteLabel 0 1), .emit (.jumpAddress 0x400106)] }
    let world (uses : List Target.Use) : Traced (Faulty World) :=
      { world := { world := { targets := [origin.useAll uses] } } }
    let process : Handle := ⟨0, 1⟩
    origin.Fresh ∧ (processes.install process recipe.code (world [])).1.2 = .ok 0x1000000 ∧
      (origin.useAll []).Extended (recipe.code.moveTo 0x1000000).bytes 0x1000000
        ((processes.install process recipe.code (world [])).2.world.world.target process.slot) ∧
      (processes.install process recipe.code (world [.refuseWrite 0])).1.2 =
        .error (.writing 0x1000000 "injected write failure") ∧
      ((processes.install process recipe.code (world [.refuseWrite 0])).2.world.world.target process.slot).blocks =
        [] := by
  intro origin recipe world process
  have hfresh : origin.Fresh := ⟨rfl, rfl⟩
  have hok : (processes.install process recipe.code (world [])).1.2 = .ok 0x1000000 := by decide +kernel
  have herror : (processes.install process recipe.code (world [.refuseWrite 0])).1.2 =
      .error (.writing 0x1000000 "injected write failure") := by decide +kernel
  obtain ⟨-, hextended, -⟩ := install_all_or_nothing.1 origin [] recipe process (world []) hfresh rfl (by decide)
  obtain ⟨-, hrefused, -⟩ := install_all_or_nothing.1 origin [.refuseWrite 0] recipe process (world [.refuseWrite 0])
    hfresh rfl (by decide)
  refine ⟨hfresh, hok, (hextended.success _ hok).2.2, herror, ?_⟩
  -- the last access has released the block
  have hlast : (processes.accesses (fun platform => platform.install process recipe.code)
      (world [.refuseWrite 0])).getLast? = some (.free 0x1000000 (.ok ())) := by decide +kernel
  rcases hrefused.failure _ herror with ⟨hlone, -, -⟩ | ⟨a, freed, -, hfreed, -, hleft⟩
  · rw [hlone] at hlast
    cases hlast
  · rw [hlast] at hfreed
    cases hfreed
    exact hleft.released fun hne => hne rfl

end InMemory

end LoadRemover
