import LoadRemover.Proofs.Triple
import LoadRemover.Windows.Platform

/-!
# The protection of pages around a write

A write lifts the protection of its range and sets the former protection again, whatever becomes of the bytes
themselves. `Api.ProtectsPages` is what is assumed of the functions: protection belongs to whole pages, and of the
former protection only that of the first page is told. All pages of the range get it in the end, so the write leaves
protection as it was only where they had it before.
-/

namespace LoadRemover.Windows

/-! ### Pages -/

def pageSize : Nat := 0x1000

def pageOf (address : Nat) : Nat := address / pageSize

/-- Some byte of the range lies in the page. -/
def Overlaps (address : UInt64) (size page : Nat) : Prop :=
  ∃ x, pageOf x = page ∧ address.toNat ≤ x ∧ x < address.toNat + size

private theorem overlaps_iff {address : UInt64} {size page : Nat} : Overlaps address size page ↔
    0 < size ∧ pageOf address.toNat ≤ page ∧ page ≤ pageOf (address.toNat + size - 1) := by
  unfold Overlaps pageOf pageSize
  constructor
  · rintro ⟨x, rfl, hle, hlt⟩
    omega
  · rintro ⟨hsize, hfirst, hlast⟩
    exact ⟨max address.toNat (page * 0x1000), by omega⟩

instance (address : UInt64) (size page : Nat) : Decidable (Overlaps address size page) :=
  decidable_of_iff _ overlaps_iff.symm

/-- Protection after it was set for a range. -/
def protectedAs (new : UInt32) (address : UInt64) (size : Nat) (protection : Nat → UInt32) (page : Nat) : UInt32 :=
  if Overlaps address size page then new else protection page

section Protections

variable {new former : UInt32} {address : UInt64} {size : Nat} {protection : Nat → UInt32}

/-- What is set last for a range is what counts. -/
private theorem protectedAs_protectedAs :
    protectedAs new address size (protectedAs former address size protection) =
      protectedAs new address size protection := by
  funext page
  unfold protectedAs
  split <;> rfl

private theorem protectedAs_eq_self_iff : protectedAs new address size protection = protection ↔
    ∀ page, Overlaps address size page → protection page = new := by
  constructor
  · intro h page hpage
    rw [← congrFun h page, protectedAs, if_pos hpage]
  · intro h
    funext page
    unfold protectedAs
    split
    · next hpage => exact (h page hpage).symm
    · rfl

end Protections

/-! ### Functions that know pages -/

variable {σ : Type}

/-- Protection belongs to the pages of the process. To set it reports what the first page of the range had, and the
functions for bytes leave it alone, also where they fail. -/
structure Api.ProtectsPages (api : Api σ) (process : Handle) (protection : σ → Nat → UInt32) : Prop where
  protect : ∀ {address size new former w w'}, 0 < size →
    (api.protect process address size new).run w = (.ok former, w') →
      former = protection w (pageOf address.toNat) ∧ protection w' = protectedAs new address size (protection w)
  writeMemory : ∀ address bytes w, protection ((api.writeMemory process address bytes).run w).2 = protection w
  flushInstructions : ∀ address size w,
    protection ((api.flushInstructions process address size).run w).2 = protection w

section Writing

variable {api : Api σ} {protection : σ → Nat → UInt32} {process : OpenedProcess} {address : UInt32} {bytes : Bytes}
  {former lifted : UInt32} {w w₁ w₂ : σ} {limit : Nat}

/-- After the bytes, whether or not they were written, the former protection is set again; nothing that follows changes
it. -/
private theorem ensures_protection (hpages : api.ProtectsPages process.handle protection)
    (hlift : (api.protect process.handle address.toUInt64 bytes.length executeReadWrite).run w = (.ok former, w₁))
    (hrestore : (api.protect process.handle address.toUInt64 bytes.length former).run
      ((api.writeMemory process.handle address.toUInt64 bytes).run w₁).2 = (.ok lifted, w₂)) :
    Attempt.Ensures (· = w) (api.write process address bytes) (fun _ w' => protection w' = protection w₂)
      fun w' => protection w' = protection w₂ := by
  have hlifting : Action.Ensures (· = w)
      (call (api.protect process.handle address.toUInt64 bytes.length executeReadWrite))
      fun result w' => result = .ok former ∧ w' = w₁ := by
    refine Action.Ensures.onWorld ?_
    rintro _ rfl
    rw [hlift]
    exact ⟨rfl, rfl⟩
  have hwriting : Action.Ensures (· = w₁) (call (api.writeMemory process.handle address.toUInt64 bytes))
      fun _ w' => w' = ((api.writeMemory process.handle address.toUInt64 bytes).run w₁).2 := by
    refine Action.Ensures.onWorld ?_
    rintro _ rfl
    rfl
  have hrestoring : Action.Ensures (· = ((api.writeMemory process.handle address.toUInt64 bytes).run w₁).2)
      (callAnyway (api.protect process.handle address.toUInt64 bytes.length former))
      fun _ w' => protection w' = protection w₂ := by
    have hcall : Action.Ensures (· = ((api.writeMemory process.handle address.toUInt64 bytes).run w₁).2)
        (call (api.protect process.handle address.toUInt64 bytes.length former))
        fun _ w' => protection w' = protection w₂ := by
      refine Action.Ensures.onWorld ?_
      rintro _ rfl
      rw [hrestore]
    exact Action.Ensures.bind hcall fun _ => Action.Ensures.pure fun _ h => h
  have hflushing : Action.Ensures (fun w' => protection w' = protection w₂)
      (call (api.flushInstructions process.handle address.toUInt64 bytes.length))
      fun _ w' => protection w' = protection w₂ :=
    Action.Ensures.onWorld fun w' h => (hpages.flushInstructions _ _ w').trans h
  refine Attempt.Ensures.bind (Attempt.Ensures.lift hlifting) fun result => Action.Ensures.of_imp ?_
  rintro rfl
  refine Attempt.Ensures.bind (Attempt.Ensures.lift hwriting) fun written => ?_
  refine Attempt.Ensures.bind (Attempt.Ensures.lift hrestoring) fun _ => ?_
  cases written with
  | error reason => exact Attempt.Ensures.throw_bind fun _ h => h
  | ok n =>
    dsimp only
    split
    · exact Attempt.Ensures.throw_bind fun _ h => h
    · refine Attempt.Ensures.bind (Attempt.Ensures.lift hflushing) fun result => ?_
      cases result with
      | error reason => exact Attempt.Ensures.report
      | ok a => exact Attempt.Ensures.pure fun _ h => h

/-- All pages of the range end up with the protection that the first of them had, whether the write succeeds or fails.
So protection is as it was exactly if all of them had the same. -/
theorem write_protects_as_first_page (hpages : api.ProtectsPages process.handle protection) (hbytes : bytes ≠ [])
    {s : Traced σ}
    (hlift : (api.protect process.handle address.toUInt64 bytes.length executeReadWrite).run s.world = (.ok former, w₁))
    (hrestore : (api.protect process.handle address.toUInt64 bytes.length former).run
      ((api.writeMemory process.handle address.toUInt64 bytes).run w₁).2 = (.ok lifted, w₂)) :
    let before := protection s.world
    let after := protection (((platform api limit).write process address bytes).outcome s).2.world
    after = protectedAs (before (pageOf address.toNat)) address.toUInt64 bytes.length before ∧
      (after = before ↔
        ∀ page, Overlaps address.toUInt64 bytes.length page → before page = before (pageOf address.toNat)) := by
  intro before after
  have hsize : 0 < bytes.length := List.length_pos_iff.2 hbytes
  obtain ⟨hformer, hlifted⟩ := hpages.protect hsize hlift
  have hrestored := (hpages.protect hsize hrestore).2
  rw [UInt32.toNat_toUInt64] at hformer
  have hensures : Action.Ensures (· = s.world) (api.write process address bytes).outcome
      fun _ w => protection w = protection w₂ :=
    Action.Ensures.post_mono (ensures_protection hpages hlift hrestore) fun result _ h => by cases result <;> exact h
  have hafter : after = protection w₂ := hensures s rfl
  have hfirst : after = protectedAs (before (pageOf address.toNat)) address.toUInt64 bytes.length before := by
    rw [hafter, hrestored, hpages.writeMemory, hlifted, protectedAs_protectedAs, hformer]
  exact ⟨hfirst, hfirst ▸ protectedAs_eq_self_iff⟩

end Writing

/-! ### A memory in pages -/

/-- The memory of a process, where each page has its own protection. -/
structure PagedMemory where
  protection : Nat → UInt32
  byte : Nat → UInt8

namespace PagedMemory

/-- Whether all pages of a range can be written to. -/
def isWritable (m : PagedMemory) (address : UInt64) (size : Nat) : Bool :=
  let first := pageOf address.toNat
  (List.range' first (pageOf (address.toNat + size - 1) + 1 - first)).all fun page =>
    m.protection page = 0x40 || m.protection page = 0x04

def store (m : PagedMemory) (address : UInt64) (bytes : Bytes) : PagedMemory :=
  { m with byte := fun x => if address.toNat ≤ x then bytes.getD (x - address.toNat) (m.byte x) else m.byte x }

private def unsupported {α : Type} : Call PagedMemory α := throw "The request is not supported."

/-- The functions for the memory of a process, which any handle opens. -/
def api : Api PagedMemory where
  createSnapshot _ _ := unsupported
  firstProcess _ _ := unsupported
  nextProcess _ _ := unsupported
  firstModule _ := unsupported
  openProcess _ _ _ := unsupported
  closeHandle _ := unsupported
  exitCode _ := unsupported
  isWow64 _ := unsupported
  readMemory _ address size := do return (List.range' address.toNat size).map (← get).byte
  writeMemory _ address bytes := do
    if (← get).isWritable address bytes.length then
      modify (·.store address bytes)
      return bytes.length
    throw "Invalid access to memory location."
  flushInstructions _ _ _ := return ()
  protect _ address size new := do
    let former := (← get).protection
    modify fun m => { m with protection := protectedAs new address size former }
    return former (pageOf address.toNat)
  allocate _ _ _ _ := return 0
  lastError _ := "The request is not supported."
  free _ _ _ _ := unsupported

variable (process : Handle) (address : UInt64) (m : PagedMemory)

private theorem run_protect (size : Nat) (new : UInt32) : (api.protect process address size new).run m =
    (.ok (m.protection (pageOf address.toNat)),
      { m with protection := protectedAs new address size m.protection }) := rfl

private theorem run_writeMemory (bytes : Bytes) : (api.writeMemory process address bytes).run m =
    if m.isWritable address bytes.length then (.ok bytes.length, m.store address bytes)
    else (.error "Invalid access to memory location.", m) := by
  have hrun : (api.writeMemory process address bytes).run m = (do
      if m.isWritable address bytes.length then
        modify (·.store address bytes)
        return bytes.length
      throw "Invalid access to memory location." : Call PagedMemory Nat).run m := rfl
  rw [hrun]
  split <;> rfl

private theorem protectsPages : api.ProtectsPages process protection where
  protect {address size new former w w'} _ h := by
    rw [run_protect] at h
    obtain ⟨hformer, hafter⟩ := Prod.mk.inj h
    exact ⟨(Except.ok.inj hformer).symm, congrArg protection hafter.symm⟩
  writeMemory address bytes w := by
    rw [run_writeMemory]
    split <;> rfl
  flushInstructions _ _ _ := rfl

end PagedMemory

/-- A write of the last two bytes of a page and the first two of the next, with the first page executable and the second
one writable data. -/
theorem second_page_left_as_first :
    let m : PagedMemory := ⟨fun page => if page = 0x400 then 0x20 else 0x04, fun _ => 0⟩
    let process : OpenedProcess := ⟨⟨4⟩, 7⟩
    let lift := (PagedMemory.api.protect process.handle 0x400ffe 4 executeReadWrite).run m
    let write := (PagedMemory.api.writeMemory process.handle 0x400ffe [1, 2, 3, 4]).run lift.2
    let restore := (PagedMemory.api.protect process.handle 0x400ffe 4 0x20).run write.2
    let answer := ((platform PagedMemory.api).write process 0x400ffe [1, 2, 3, 4]).outcome ⟨m, []⟩
    PagedMemory.api.ProtectsPages process.handle PagedMemory.protection ∧ lift.1 = .ok 0x20 ∧ write.1 = .ok 4 ∧
      restore.1 = .ok 0x40 ∧ answer.1 = .ok () ∧
        m.protection 0x401 = 0x04 ∧ answer.2.world.protection 0x401 = 0x20 :=
  ⟨PagedMemory.protectsPages _, rfl, rfl, rfl, rfl, rfl, rfl⟩

/-- The same bytes in two pages of code. -/
theorem write_protects_as_first_page_in_code :
    let m : PagedMemory := ⟨fun page => if page = 0x400 ∨ page = 0x401 then 0x20 else 0x04, fun _ => 0⟩
    let process : OpenedProcess := ⟨⟨4⟩, 7⟩
    let answer := ((platform PagedMemory.api).write process 0x400ffe [1, 2, 3, 4]).outcome ⟨m, []⟩
    answer.1 = .ok () ∧ answer.2.world.protection = m.protection := by
  intro m process answer
  have hsame : ∀ page, Overlaps 0x400ffe 4 page → m.protection page = m.protection 0x400 := by
    intro page hpage
    obtain ⟨-, hfirst, hlast⟩ := overlaps_iff.1 hpage
    obtain rfl | rfl : page = 0x400 ∨ page = 0x401 :=
      (Nat.lt_or_eq_of_le hlast).imp_left fun h => Nat.le_antisymm (Nat.le_of_lt_succ h) hfirst
    · rfl
    · rfl
  have hbytes : ([1, 2, 3, 4] : Bytes) ≠ [] := List.cons_ne_nil 1 [2, 3, 4]
  have h := @write_protects_as_first_page PagedMemory PagedMemory.api PagedMemory.protection process 0x400ffe
    [1, 2, 3, 4] 0x20 0x40 _ _ 0x100000000 (PagedMemory.protectsPages process.handle) hbytes ⟨m, []⟩ rfl rfl
  exact ⟨rfl, h.2.2 hsame⟩

end LoadRemover.Windows
