import LoadRemover.Proofs.Execution
import LoadRemover.Proofs.Layout
import LoadRemover.Proofs.Patching

/-!
# What attaching writes

A `MemoryView` shows the memory of one process as bytes at all addresses; all that it asks of a platform is that a
write that succeeds puts its bytes at its address. Then a successful attempt to attach leaves the head block and one
redirection at each site in memory, on top of whatever was there before (`MemoryView.ensures_attach`). As these lie
apart, each of them can be read there (`X86.Memory.holds_storeAll`).
-/

namespace LoadRemover

/-! ### Several pieces in memory -/

namespace X86

namespace Memory

def storeAll (memory : Memory) (pieces : List (UInt32 × Bytes)) : Memory :=
  pieces.foldl (fun memory piece => memory.store piece.1 piece.2) memory

private theorem storeAll_apart (memory : Memory) {pieces : List (UInt32 × Bytes)} {a : UInt32}
    (h : ∀ piece ∈ pieces, ¬ Within piece.1 piece.2.length a) : memory.storeAll pieces a = memory a := by
  induction pieces generalizing memory with
  | nil => rfl
  | cons piece rest ih =>
    have hrest := ih (memory.store piece.1 piece.2) fun q hq => h q (List.mem_cons_of_mem _ hq)
    exact hrest.trans (store_apart (h piece (List.mem_cons_self ..)))

private theorem holds_storeAll (memory : Memory) {pieces : List (UInt32 × Bytes)}
    (hapart : pieces.Pairwise fun p q => Apart p.1 p.2.length q.1 q.2.length)
    (hlength : ∀ piece ∈ pieces, piece.2.length ≤ 2 ^ 32) :
    ∀ piece ∈ pieces, (memory.storeAll pieces).Holds piece.1 piece.2 := by
  induction pieces generalizing memory with
  | nil => nofun
  | cons first rest ih =>
    obtain ⟨hfirst, hrest⟩ := List.pairwise_cons.1 hapart
    intro piece hpiece
    rcases List.mem_cons.1 hpiece with rfl | hpiece
    · have hhere := holds_store memory piece.1 (hlength piece (List.mem_cons_self ..))
      have hlt := hlength piece (List.mem_cons_self ..)
      refine hhere.congr fun i hi => storeAll_apart (memory.store piece.1 piece.2) fun q hq => ?_
      exact hfirst q hq _ (within_add hi (by omega))
    · exact ih _ hrest (fun q hq => hlength q (List.mem_cons_of_mem _ hq)) piece hpiece

end Memory

end X86

open X86

/-- The memory of a process, in the worlds in which it can be seen. -/
structure MemoryView {σ π : Type} (platform : Platform σ π) (process : π) where
  memory : σ → Memory
  valid : σ → Prop
  allocate : ∀ size, Attempt.Ensures valid (platform.allocate process size) (fun _ => valid) fun _ => True
  /-- A write that succeeds puts its bytes at its address and changes nothing else. -/
  write : ∀ before address bytes, Attempt.Ensures (fun w => valid w ∧ memory w = before)
    (platform.write process address bytes) (fun _ w => valid w ∧ memory w = before.store address bytes) fun _ => True

/-- What is written for a site: the jump to its wrapper. -/
def Head.redirection (head : Head) (pair : SiteLayout × Snapshot) : UInt32 × Bytes :=
  (pair.2.code.base, (redirect pair.2.code.base (head.wrapperAddress pair.1)).bytes)

/-- What is written to patch a process: the block, and the redirections of the sites. -/
def Head.patches (head : Head) (pairs : List (SiteLayout × Snapshot)) : List (UInt32 × Bytes) :=
  (head.code.base, head.code.bytes) :: pairs.map head.redirection

theorem Head.length_redirection (head : Head) (pair : SiteLayout × Snapshot) :
    (head.redirection pair).2.length = 5 := by
  rw [redirection, bytes_redirect]
  rfl

theorem Head.holds_patches (head : Head) {pairs : List (SiteLayout × Snapshot)} (hsize : head.code.size ≤ 2 ^ 32)
    (hapart : (head.patches pairs).Pairwise fun p q => Apart p.1 p.2.length q.1 q.2.length) (before : Memory) :
    (before.storeAll (head.patches pairs)).Holds head.code.base head.code.bytes ∧
      ∀ pair ∈ pairs, (before.storeAll (head.patches pairs)).Holds pair.2.code.base
        (redirect pair.2.code.base (head.wrapperAddress pair.1)).bytes := by
  have hlength : ∀ piece ∈ head.patches pairs, piece.2.length ≤ 2 ^ 32 := by
    refine List.forall_mem_cons.2 ⟨hsize, fun piece hpiece => ?_⟩
    obtain ⟨pair, -, rfl⟩ := List.mem_map.1 hpiece
    rw [length_redirection]
    omega
  obtain ⟨hblock, hredirections⟩ := List.forall_mem_cons.1 (Memory.holds_storeAll before hapart hlength)
  exact ⟨hblock, fun pair hpair => hredirections _ (List.mem_map_of_mem hpair)⟩

/-- Attaching leaves the patches in memory. -/
theorem MemoryView.ensures_attach {σ π : Type} {platform : Platform σ π} (candidate : Candidate π)
    (view : MemoryView platform candidate.process) :
    Attempt.Ensures view.valid (platform.attach candidate)
      (fun session w => ∃ base, session = Session.start candidate base ∧ ∃ before : Memory,
        view.memory w = before.storeAll ((Head.placed candidate.snapshots base).patches
          ((Head.build candidate.snapshots).sites.zip candidate.snapshots)))
      fun _ => True := by
  have hstore : ∀ (pieces : List (UInt32 × Bytes)) (address : UInt32) (bytes : Bytes), Attempt.Ensures
      (fun w => view.valid w ∧ ∃ before : Memory, view.memory w = before.storeAll pieces)
      (platform.write candidate.process address bytes)
      (fun _ w => view.valid w ∧ ∃ before : Memory, view.memory w = before.storeAll (pieces ++ [(address, bytes)]))
      fun _ => True := by
    intro pieces address bytes s ⟨hvalid, before, hbefore⟩
    have := view.write _ address bytes s ⟨hvalid, hbefore⟩
    cases hresult : ((platform.write candidate.process address bytes).outcome s).1 with
    | error failure => exact True.intro
    | ok _ =>
      simp only [hresult] at this ⊢
      refine ⟨this.1, before, ?_⟩
      rw [this.2, Memory.storeAll, Memory.storeAll, List.foldl_append]
      rfl
  -- only the success counts here, so nothing is said about what a failure leaves
  have hattach := Platform.ensures_attach (fun _ => view.valid) (fun _ _ => True)
    (fun base done w => view.valid w ∧ ∃ before : Memory,
      view.memory w = before.storeAll ((Head.placed candidate.snapshots base).patches done)) (fun _ _ _ => True)
    (view.allocate (Head.build candidate.snapshots).code.size) ?_ (fun _ _ _ _ => True.intro)
    (fun _ => Attempt.Ensures.trivial) ?_ (fun _ _ _ _ _ _ _ _ => True.intro)
    (fun _ _ _ _ _ => Action.Ensures.trivial) Action.Ensures.trivial
  · refine hattach.ends_mono ?_ fun _ _ => True.intro
    rintro session w ⟨base, hsession, -, hmemory⟩
    exact ⟨base, hsession, hmemory⟩
  · intro base s hvalid
    exact hstore [] base _ s ⟨hvalid, view.memory s.world, rfl⟩
  · intro base done pair _ _
    have := hstore ((Head.placed candidate.snapshots base).patches done) pair.2.code.base
      (redirect pair.2.code.base ((Head.placed candidate.snapshots base).wrapperAddress pair.1)).bytes
    unfold Head.patches at this ⊢
    rw [List.map_append]
    exact this

end LoadRemover
