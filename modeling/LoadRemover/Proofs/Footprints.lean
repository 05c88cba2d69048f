import LoadRemover.Proofs.Deeds
import LoadRemover.Proofs.Visits

/-!
# What the deeds of a call touch

Of each deed it is known which bytes it can change: a write those that it covers, and the release of a block those of
the block. So the deeds of a call that are proper leave the process as it was, but for the sites of the candidate and
the blocks that were lent to the engine (`Careful`). All other processes are left alone (`Worked`).

Two things are carried along: how large the blocks are that were lent to the engine (`Target.Lends`), and, within a
call, which bytes are still as before (`Target.Spared`). Others may allocate blocks and release them, even those of the
engine (`Target.Turns`). All that matters is that no address is handed out twice.
-/

namespace LoadRemover

/-- The address lies in a site of the candidate. -/
def Candidate.InSite {π : Type} (candidate : Candidate π) (a : UInt32) : Prop :=
  ∃ site, (candidate.entry site).toNat ≤ a.toNat ∧ a.toNat < (candidate.entry site).toNat + 6

namespace InMemory

variable {own : UInt32 → Nat → Prop} {rs : List Region} {a address : UInt32} {size : Nat}

/-! ### Bytes that stay as they are -/

private theorem peekIn_eraseP {p : Region → Bool} {b n : Nat}
    (h : ∀ region ∈ rs, p region = true → ¬ region.covers b n = true) :
    peekIn (rs.eraseP p) b n = peekIn rs b n := by
  induction rs with
  | nil => rfl
  | cons region rest ih =>
    obtain ⟨hregion, hrest⟩ := List.forall_mem_cons.1 h
    by_cases hp : p region = true
    · rw [List.eraseP_cons_of_pos hp, peekIn_cons, if_neg (hregion hp)]
    · rw [List.eraseP_cons_of_neg hp, peekIn_cons, peekIn_cons, ih hrest]

namespace Target

variable {t t' : Target} {bytes : Bytes}

private theorem byte_write (t : Target) (address : UInt32) (bytes : Bytes) (a : UInt32) :
    (t.write address bytes).2.peek? a 1 = t.peek? a 1 ∨
      address.toNat ≤ a.toNat ∧ a.toNat < address.toNat + bytes.length := by
  obtain ⟨-, hwrite⟩ := t.write_spec address bytes
  cases hresult : (t.write address bytes).1 with
  | error failure =>
    rw [hresult] at hwrite
    exact .inl (peek?_congr hwrite a 1)
  | ok _ =>
    rw [hresult] at hwrite
    by_cases hin : address.toNat ≤ a.toNat ∧ a.toNat < address.toNat + bytes.length
    · exact .inr hin
    · exact .inl (peekIn_of_pokeIn_apart hwrite (by omega))

/-! ### Blocks that were lent -/

/-- Blocks lie below the next address, and those that were lent have the size that was asked for. -/
structure Lends (own : UInt32 → Nat → Prop) (t : Target) : Prop where
  below : ∀ block ∈ t.blocks, block.base < t.nextBlock
  size : ∀ base size, own base size →
    base.toNat < t.nextBlock ∧ ∀ block ∈ t.blocks, block.base = base.toNat → block.size = size

/-- What may become of a process. Its memory may change in any way, and blocks may come and go, but no address is
handed out twice. -/
structure Turns (t t' : Target) : Prop where
  nextBlock : t.nextBlock ≤ t'.nextBlock
  blocks : ∀ block ∈ t'.blocks,
    (∃ old ∈ t.blocks, old.extent = block.extent) ∨ t.nextBlock ≤ block.base ∧ block.base < t'.nextBlock

theorem SameShape.turns (h : t.SameShape t') : t.Turns t' :=
  ⟨Nat.le_of_eq h.nextBlock.symm, fun _ hblock => .inl (exists_mem_of_extents h.blocks hblock)⟩

theorem Lends.turns (h : t.Lends own) (hturns : t.Turns t') : t'.Lends own := by
  have hnext := hturns.nextBlock
  refine ⟨fun block hblock => ?_, fun base size hown => ?_⟩
  · rcases hturns.blocks block hblock with ⟨old, hold, hextent⟩ | ⟨-, hbelow⟩
    · have hbase : old.base = block.base := congrArg Prod.fst hextent
      have := h.below old hold
      omega
    · exact hbelow
  · obtain ⟨hbelow, hsize⟩ := h.size base size hown
    refine ⟨Nat.lt_of_lt_of_le hbelow hnext, fun block hblock hbase => ?_⟩
    rcases hturns.blocks block hblock with ⟨old, hold, hextent⟩ | ⟨hnew, -⟩
    · obtain ⟨hfirst, hsecond⟩ := Prod.mk.inj hextent
      rw [← hsecond]
      exact hsize old hold (hfirst.trans hbase)
    · -- a new block has a new address
      omega

theorem Lends.congr {own' : UInt32 → Nat → Prop} (h : t.Lends own)
    (hown : ∀ base size, own' base size → own base size) :
    t.Lends own' :=
  ⟨h.below, fun base size hbase => h.size base size (hown base size hbase)⟩

/-- The process with one more block, `pages` being what is handed out for it. -/
def lend (t : Target) (size pages : Nat) : Target :=
  { t with blocks := t.blocks ++ [.zeros t.nextBlock size], nextBlock := t.nextBlock + pages }

theorem allocate_cases (t : Target) (size : Nat) :
    (∃ failure, t.allocate size = (.error failure, t)) ∨
      ∃ pages, 0 < pages ∧ t.allocate size = (.ok (UInt32.ofNat t.nextBlock), t.lend size pages) := by
  unfold Target.allocate
  by_cases hexited : t.exited = true
  · exact .inl ⟨_, if_pos hexited⟩
  · exact .inr ⟨_, Nat.mul_pos (Nat.lt_of_lt_of_le Nat.one_pos (Nat.le_max_left _ _)) (by decide), if_neg hexited⟩

theorem turns_lend (t : Target) (size : Nat) {pages : Nat} (hpages : 0 < pages) : t.Turns (t.lend size pages) := by
  refine ⟨Nat.le_add_right _ _, fun block hblock => ?_⟩
  rcases List.mem_append.1 hblock with hold | hnew
  · exact .inl ⟨block, hold, rfl⟩
  · rw [List.mem_singleton.1 hnew]
    exact .inr ⟨Nat.le_refl _, Nat.lt_add_of_pos_right hpages⟩

/-- A new block belongs to whoever has asked for it. -/
private theorem Lends.lend (h : t.Lends own) {base : UInt32} (hbase : base.toNat = t.nextBlock) {pages : Nat}
    (hpages : 0 < pages) :
    (t.lend size pages).Lends fun base' size' => own base' size' ∨ base' = base ∧ size' = size := by
  have hlends := h.turns (t.turns_lend size hpages)
  refine ⟨hlends.below, ?_⟩
  rintro base' size' (hown | ⟨rfl, rfl⟩)
  · exact hlends.size base' size' hown
  · rw [hbase]
    refine ⟨Nat.lt_add_of_pos_right hpages, fun block hblock hsame => ?_⟩
    rcases List.mem_append.1 hblock with hold | hnew
    · -- the address was not in use before
      have := h.below block hold
      omega
    · rw [List.mem_singleton.1 hnew]
      rfl

private theorem byte_lend (t : Target) (size pages : Nat) (a : UInt32) :
    (t.lend size pages).peek? a 1 = t.peek? a 1 ∨ t.nextBlock ≤ a.toNat ∧ a.toNat < t.nextBlock + size := by
  by_cases hin : t.nextBlock ≤ a.toNat ∧ a.toNat < t.nextBlock + size
  · exact .inr hin
  · have hnew : peekIn [.zeros t.nextBlock size] a.toNat 1 = none := by
      rw [peekIn_cons, if_neg]
      · rfl
      · rw [Region.covers_iff]
        simp only [Region.zeros]
        omega
    have hpeek : (t.lend size pages).peek? a 1 =
        peekIn (t.mapped ++ (t.blocks ++ [.zeros t.nextBlock size])) a.toNat 1 := rfl
    rw [hpeek, ← List.append_assoc, peekIn_append, hnew, Option.or_none]
    exact .inl rfl

theorem turns_free (t : Target) (address : UInt32) : t.Turns (t.free address).2 := by
  unfold Target.free
  split
  · exact ⟨Nat.le_refl _, fun block hblock => .inl ⟨block, List.mem_of_mem_eraseP hblock, rfl⟩⟩
  · exact (SameShape.refl t).turns

/-- A block that was lent takes with it the bytes that it had. -/
private theorem Lends.byte_free (h : t.Lends own) (hown : own address size) (a : UInt32) :
    (t.free address).2.peek? a 1 = t.peek? a 1 ∨ address.toNat ≤ a.toNat ∧ a.toNat < address.toNat + size := by
  unfold Target.free
  split
  · by_cases hin : address.toNat ≤ a.toNat ∧ a.toNat < address.toNat + size
    · exact .inr hin
    · left
      have hsame : peekIn (t.blocks.eraseP (·.base == address.toNat)) a.toNat 1 = peekIn t.blocks a.toNat 1 := by
        refine peekIn_eraseP fun block hblock hbase hcovers => hin ?_
        have hbase := beq_iff_eq.1 hbase
        have hsize := (h.size address size hown).2 block hblock hbase
        rw [Region.covers_iff] at hcovers
        omega
      have hpeek : t.peek? a 1 = peekIn (t.mapped ++ t.blocks) a.toNat 1 := rfl
      rw [hpeek, peekIn_append, ← hsame, ← peekIn_append]
      rfl
  · exact .inl rfl

/-! ### Processes that are spared -/

/-- The address lies in a block that was lent. -/
def Lent (own : UInt32 → Nat → Prop) (a : UInt32) : Prop :=
  ∃ base size, own base size ∧ base.toNat ≤ a.toNat ∧ a.toNat < base.toNat + size

/-- Of the memory nothing has changed but bytes at sites and in blocks that were lent. -/
structure Spared (sites : UInt32 → Prop) (own : UInt32 → Nat → Prop) (origin t : Target) : Prop where
  lends : t.Lends own
  byte : ∀ a, t.peek? a 1 = origin.peek? a 1 ∨ sites a ∨ Lent own a

namespace Spared

variable {sites : UInt32 → Prop} {origin : Target}

private theorem write (h : Spared sites own origin t) (address : UInt32) (bytes : Bytes)
    (hrange : ∀ a : UInt32, address.toNat ≤ a.toNat → a.toNat < address.toNat + bytes.length → sites a ∨ Lent own a) :
    Spared sites own origin (t.write address bytes).2 := by
  refine ⟨h.lends.turns (t.write_spec address bytes).1.turns, fun a => ?_⟩
  rcases t.byte_write address bytes a with hsame | ⟨hfrom, hto⟩
  · rw [hsame]
    exact h.byte a
  · exact .inr (hrange a hfrom hto)

private theorem free (h : Spared sites own origin t) (hown : own address size) :
    Spared sites own origin (t.free address).2 := by
  refine ⟨h.lends.turns (t.turns_free address), fun a => ?_⟩
  rcases h.lends.byte_free hown a with hsame | hin
  · rw [hsame]
    exact h.byte a
  · exact .inr (.inr ⟨address, size, hown, hin⟩)

private theorem lend (h : Spared sites own origin t) {base : UInt32} (hbase : base.toNat = t.nextBlock) {pages : Nat}
    (hpages : 0 < pages) :
    Spared sites (fun base' size' => own base' size' ∨ base' = base ∧ size' = size) origin (t.lend size pages) := by
  refine ⟨h.lends.lend hbase hpages, fun a => ?_⟩
  rcases t.byte_lend size pages a with hsame | hin
  · rw [hsame]
    rcases h.byte a with hsame | hsites | ⟨base', size', hown, hrange⟩
    · exact .inl hsame
    · exact .inr (.inl hsites)
    · exact .inr (.inr ⟨base', size', .inl hown, hrange⟩)
  · rw [← hbase] at hin
    exact .inr (.inr ⟨base, size, .inr ⟨rfl, rfl⟩, hin⟩)

end Spared

end Target

/-! ### Deeds in memory -/

/-- A block of this size was allocated in the process. -/
def Granted (deeds : List (Deed Handle)) (slot : Nat) (base : UInt32) (size : Nat) : Prop :=
  ∃ process : Handle, process.slot = slot ∧ .allocate process size (.ok base) ∈ deeds

section Deeds

variable {past done : List (Deed Handle)} {deed : Deed Handle} {slot : Nat} {base : UInt32}

theorem granted_append {later : List (Deed Handle)} :
    Granted (done ++ later) slot base size ↔ Granted done slot base size ∨ Granted later slot base size := by
  simp only [Granted, List.mem_append, and_or_left, exists_or]

/-- Only an allocation grants a block. -/
private theorem granted_concat (h : ∀ process size base, deed ≠ .allocate process size (.ok base)) :
    Granted (past ++ (done ++ [deed])) = Granted (past ++ done) := by
  have hnew : ∀ slot base size, ¬ Granted [deed] slot base size :=
    fun slot base size ⟨process, _, hmem⟩ => h process size base (List.mem_singleton.1 hmem).symm
  funext slot base size
  rw [← List.append_assoc, granted_append, or_iff_left (hnew slot base size)]

variable {candidate : Candidate Handle} {origin t : Target}

/-- If all deeds so far were proper and addresses did not run out, the process of the candidate was spared. -/
def Careful (candidate : Candidate Handle) (past : List (Deed Handle)) (origin : Target) (done : List (Deed Handle))
    (t : Target) : Prop :=
  Proper candidate past done → t.nextBlock ≤ 2 ^ 32 →
    Target.Spared candidate.InSite (Granted (past ++ done) candidate.process.slot) origin t

namespace Careful

private theorem write (h : Careful candidate past origin done t) (process : Handle) (address : UInt32) (bytes : Bytes) :
    Careful candidate past origin (done ++ [.write process address bytes]) (t.write address bytes).2 := by
  intro hproper hbounded
  obtain ⟨hearlier, hprocess, hplace⟩ := hproper.of_concat
  have hgranted : Granted (past ++ (done ++ [.write process address bytes])) = Granted (past ++ done) :=
    granted_concat nofun
  rw [(t.write_spec address bytes).1.nextBlock] at hbounded
  rw [hgranted]
  refine (h hearlier hbounded).write address bytes fun a hfrom hto => ?_
  rcases hplace with ⟨site, rfl, hlength⟩ | ⟨size, hblock, hlength⟩
  · exact .inl ⟨site, hfrom, Nat.lt_of_lt_of_le hto (Nat.add_le_add_left hlength _)⟩
  · exact .inr ⟨address, size, ⟨process, congrArg Handle.slot hprocess, hblock⟩, hfrom,
      Nat.lt_of_lt_of_le hto (Nat.add_le_add_left hlength _)⟩

private theorem free (h : Careful candidate past origin done t) (process : Handle) (address : UInt32) :
    Careful candidate past origin (done ++ [.free process address]) (t.free address).2 := by
  intro hproper hbounded
  obtain ⟨hearlier, hprocess, size, hblock⟩ := hproper.of_concat
  have hgranted : Granted (past ++ (done ++ [.free process address])) = Granted (past ++ done) := granted_concat nofun
  rw [hgranted]
  have hlent : Granted (past ++ done) candidate.process.slot address size :=
    ⟨process, congrArg Handle.slot hprocess, hblock⟩
  exact (h hearlier (Nat.le_trans (t.turns_free address).nextBlock hbounded)).free hlent

/-- What is refused leaves the process as it is. -/
private theorem refused (h : Careful candidate past origin done t)
    (hdeed : ∀ process size base, deed ≠ .allocate process size (.ok base)) :
    Careful candidate past origin (done ++ [deed]) t := by
  intro hproper hbounded
  rw [granted_concat hdeed]
  exact h hproper.of_concat.1 hbounded

private theorem lend (h : Careful candidate past origin done t) (process : Handle) {pages : Nat} (hpages : 0 < pages) :
    Careful candidate past origin (done ++ [.allocate process size (.ok (UInt32.ofNat t.nextBlock))])
      (t.lend size pages) := by
  intro hproper hbounded
  obtain ⟨hearlier, hprocess, -⟩ := hproper.of_concat
  replace hbounded : t.nextBlock + pages ≤ 2 ^ 32 := hbounded
  have hbase : (UInt32.ofNat t.nextBlock).toNat = t.nextBlock := by
    rw [UInt32.toNat_ofNat']
    exact Nat.mod_eq_of_lt (by omega)
  have hgranted : Granted (past ++ (done ++ [.allocate process size (.ok (UInt32.ofNat t.nextBlock))]))
      candidate.process.slot = fun base' size' => Granted (past ++ done) candidate.process.slot base' size' ∨
        base' = UInt32.ofNat t.nextBlock ∧ size' = size := by
    funext base' size'
    rw [← List.append_assoc, granted_append]
    refine propext (or_congr_right ⟨?_, ?_⟩)
    · rintro ⟨process', -, hmem⟩
      obtain ⟨-, hsize, hbase⟩ := Deed.allocate.inj (List.mem_singleton.1 hmem)
      exact ⟨Except.ok.inj hbase, hsize⟩
    · rintro ⟨rfl, rfl⟩
      exact ⟨process, congrArg Handle.slot hprocess, List.mem_singleton_self _⟩
  rw [hgranted]
  exact (h hearlier (by omega)).lend hbase hpages

end Careful

/-- An access is careful if it is so whether it succeeds, fails or has to fail. -/
private theorem ensures_careful {α : Type} (describe : Except Failure α → Deed Handle)
    (f : Target → Except Failure α × Target) (habsent : (f World.absent).2 = World.absent)
    (hok : ∀ done t, Careful candidate past origin done t → ∀ a, (f t).1 = .ok a →
      Careful candidate past origin (done ++ [describe (.ok a)]) (f t).2)
    (herror : ∀ done t, Careful candidate past origin done t → ∀ failure, (f t).1 = .error failure →
      ∀ failure', Careful candidate past origin (done ++ [describe (.error failure')]) (f t).2)
    (hrefused : ∀ done t, Careful candidate past origin done t → ∀ failure,
      Careful candidate past origin (done ++ [describe (.error failure)]) t) (pid : UInt32) (operation : Operation) :
    Attempt.Ensures
      (fun s => Careful candidate past origin s.done (s.world.world.target candidate.process.slot))
      (Deeds.noted describe (Faulty.guarded pid operation (World.platform.onTarget candidate.process f)))
      (fun _ s => Careful candidate past origin s.done (s.world.world.target candidate.process.slot))
      fun s => Careful candidate past origin s.done (s.world.world.target candidate.process.slot) := by
  refine @Deeds.ensures_noted _ _ _ describe _
    (fun done (s : Faulty World) => Careful candidate past origin done (s.world.target candidate.process.slot))
    (fun done s => Careful candidate past origin done (s.world.target candidate.process.slot))
    (fun _ done s => Careful candidate past origin done (s.world.target candidate.process.slot)) fun done => ?_
  refine (@ensures_onTarget _ candidate.process
    (fun a => Careful candidate past origin (done ++ [describe (.ok a)])) f habsent (Careful candidate past origin done)
    (fun t => ∀ failure, Careful candidate past origin (done ++ [describe (.error failure)]) t) (hok done)
    (herror done) (hrefused done) pid operation)

/-- Whatever is done to the process of the candidate is careful. -/
private theorem confined_careful (candidate : Candidate Handle) (past : List (Deed Handle)) (origin : Target) :
    (Deeds.platform processes).Confined candidate.process fun s =>
      Careful candidate past origin s.done (s.world.world.target candidate.process.slot) where
  close := fun _ hs => hs
  hasExited := by
    intro s hs
    have hlook : Action.Ensures
        (fun w : World => Careful candidate past origin s.world.done (w.target candidate.process.slot))
        (World.platform.hasExited candidate.process)
        fun _ w => Careful candidate past origin s.world.done (w.target candidate.process.slot) := fun _ hw => hw
    exact Faulty.ensures_hasExited hlook ⟨s.world.world, s.log⟩ hs
  write address bytes := ensures_careful (fun _ => .write candidate.process address bytes) (·.write address bytes) rfl
    (fun _ _ ht _ _ => ht.write candidate.process address bytes)
    (fun _ _ ht _ _ _ => ht.write candidate.process address bytes) (fun _ _ ht _ => ht.refused nofun)
    candidate.process.pid .write
  allocate size := by
    have hrefusal : ∀ failure process size' base,
        Deed.allocate candidate.process size (.error failure) ≠ .allocate process size' (.ok base) :=
      fun _ _ _ _ h => nomatch (Deed.allocate.inj h).2.2
    refine ensures_careful (.allocate candidate.process size) (·.allocate size) rfl (fun done t ht base hok => ?_)
      (fun done t ht failure herror failure' => ?_) (fun _ _ ht _ => ht.refused (hrefusal _)) candidate.process.pid
      .allocate
    · rcases t.allocate_cases size with ⟨failure, hsame⟩ | ⟨pages, hpages, hsame⟩
      · rw [hsame] at hok
        cases hok
      · rw [hsame] at hok ⊢
        obtain rfl := Except.ok.inj hok
        exact ht.lend candidate.process hpages
    · rcases t.allocate_cases size with ⟨_, hsame⟩ | ⟨pages, hpages, hsame⟩
      · rw [hsame]
        exact ht.refused (hrefusal _)
      · rw [hsame] at herror
        cases herror
  free address := ensures_careful (fun _ => .free candidate.process address) (·.free address) rfl
    (fun _ _ ht _ _ => ht.free candidate.process address) (fun _ _ ht _ _ _ => ht.free candidate.process address)
    (fun _ _ ht _ => ht.refused nofun) candidate.process.pid .free

/-! ### Calls in memory -/

variable {start : World}

/-- Nothing was done to any process. -/
def Idle (start : World) (s : Deeds (Faulty World) Handle) : Prop := s.done = [] ∧ s.world.world = start

/-- What was done was done to the process of the candidate, with care. -/
structure Worked (candidate : Candidate Handle) (past : List (Deed Handle)) (start : World)
    (s : Deeds (Faulty World) Handle) : Prop where
  proper : Proper candidate past s.done
  careful : Careful candidate past (start.target candidate.process.slot) s.done
    (s.world.world.target candidate.process.slot)
  others : ∀ slot ≠ candidate.process.slot, s.world.world.target slot = start.target slot

theorem quiet_idle (start : World) : (Deeds.platform processes).Quiet start.sight (Idle start) (Idle start) :=
  @Deeds.quiet _ _ (· = []) _ _ _ _ (World.quiet start).faulty

/-- Blocks that were lent to the engine are of the size that it has asked for, as long as addresses do not run out. -/
def World.Lends (w : World) (past : List (Deed Handle)) : Prop :=
  ∀ slot, (w.target slot).nextBlock ≤ 2 ^ 32 → (w.target slot).Lends (Granted past slot)

private theorem Idle.careful {s : Deeds (Faulty World) Handle} (h : Idle start s) (hlends : start.Lends past)
    (candidate : Candidate Handle) :
    Careful candidate past (start.target candidate.process.slot) s.done
      (s.world.world.target candidate.process.slot) := by
  obtain ⟨hdone, hworld⟩ := h
  rw [hdone, hworld]
  intro _ hbounded
  rw [List.append_nil]
  exact ⟨hlends _ hbounded, fun _ => .inl rfl⟩

private theorem Idle.others {s : Deeds (Faulty World) Handle} (h : Idle start s) (handle : Handle) :
    ∀ slot ≠ handle.slot, s.world.world.target slot = start.target slot := by
  intro slot _
  rw [h.2]

theorem ensures_attach_worked (hlends : start.Lends past) (hverified : candidate.Verified start.sight) :
    Attempt.Ensures (Idle start) ((Deeds.platform processes).attach candidate)
      (fun session s => (session.candidate = candidate ∧
        ∃ size, .allocate session.process size (.ok session.head) ∈ past ++ s.done) ∧ Worked candidate past start s)
      (Worked candidate past start) := by
  have hproper := @Deeds.ensures_attach _ _ processes candidate past hverified.snapshots
  have hcareful := (confined_careful candidate past (start.target candidate.process.slot)).ensures_attach
  have hothers := (Deeds.confined (World.confined start candidate.process).faulty).ensures_attach
  refine ((hproper.and hcareful).and hothers).mono (fun s hs => ⟨⟨?_, hs.careful hlends candidate⟩, hs.others _⟩) ?_ ?_
  · rw [hs.1]
    exact .nil
  · rintro session s ⟨⟨⟨base, size, rfl, hwith⟩, -, hcareful⟩, -, hothers⟩
    exact ⟨⟨rfl, size, hwith.2⟩, hwith.1, hcareful, hothers⟩
  · rintro s ⟨⟨hproper, hcareful⟩, hothers⟩
    exact ⟨hproper, hcareful, hothers⟩

theorem ensures_restore_worked {session : Session Handle} (hlends : start.Lends past)
    (hsnapshots : session.snapshots = session.build.snapshots session.moduleBase)
    (hblock : .allocate session.process size (.ok session.head) ∈ past) :
    Action.Ensures (Idle start) ((Deeds.platform processes).restore session)
      fun _ => Worked session.candidate past start := by
  have hproper := Deeds.ensures_restore processes hsnapshots hblock
  have hcareful : Action.Ensures _ ((Deeds.platform processes).restore session) _ :=
    (confined_careful session.candidate past (start.target session.process.slot)).ensures_restore
  have hothers := (Deeds.confined (World.confined start session.process).faulty).ensures_restore
  refine ((hproper.and hcareful).and hothers).mono
    (fun s hs => ⟨⟨?_, hs.careful hlends session.candidate⟩, hs.others _⟩) ?_
  · rw [hs.1]
    exact .nil
  · rintro _ s ⟨⟨hproper, hcareful⟩, hothers⟩
    exact ⟨hproper, hcareful, hothers⟩

end Deeds

end InMemory

end LoadRemover
