import Mathlib.Algebra.Order.Ring.Nat
import Mathlib.Data.List.Forall2
import LoadRemover.Head
import LoadRemover.Proofs.Moving

/-!
# The layout of the head block

The block is assembled unplaced and moved afterwards, which is the same as assembling it in place (`Head.moveTo_build`).
Then a label in it is the size of the code before the piece that it names, so the piece lies where the label says:

* `Code.Continues`: code grows at its end only;
* `Head.Lays`: the copy and the wrapper that a block has for a snapshot, at the labels of a layout;
* `Head.lays_build`: the layouts of a block are those of the snapshots for which it was built, in their order.
-/

namespace LoadRemover

namespace Code

variable {code part : Code}

/-! ### Growing code -/

/-- `code` has more bytes at the end of `part`. -/
structure Continues (part code : Code) : Prop where
  base : code.base = part.base
  bytes : part.bytes <+: code.bytes

theorem endAddress_of_bytes {more : Bytes} (hbase : code.base = part.base) (hbytes : code.bytes = part.bytes ++ more) :
    code.endAddress = part.endAddress + UInt32.ofNat more.length := by
  rw [endAddress, address, size, hbytes, hbase, List.length_append, UInt32.ofNat_add, ← UInt32.add_assoc]
  rfl

theorem Continues.refl (code : Code) : code.Continues code := ⟨rfl, List.prefix_refl _⟩

theorem Continues.trans {a b c : Code} (hab : a.Continues b) (hbc : b.Continues c) : a.Continues c :=
  ⟨hbc.base.trans hab.base, hab.bytes.trans hbc.bytes⟩

private theorem Continues.size_le (h : part.Continues code) : part.size ≤ code.size := h.bytes.length_le

theorem continues_append (code : Code) (fragment : Fragment) : code.Continues (code.append fragment) :=
  ⟨rfl, List.prefix_append _ _⟩

theorem continues_emitAll (code : Code) (instructions : List Instruction) :
    code.Continues (code.emitAll instructions) := by
  induction instructions generalizing code with
  | nil => exact .refl code
  | cons instruction rest ih => exact (code.continues_append _).trans (ih (code.emit instruction))

theorem continues_addCopy (code entry : Code) : code.Continues (code.addCopy entry) :=
  (code.continues_append _).trans (continues_append _ _)

/-- The pieces that were added for items start at their labels, one after the other. -/
theorem addEach_pieces {α : Type} {add : Code → α → Code} (hadd : ∀ (code : Code) item, code.Continues (add code item))
    (code : Code) (items : List α) :
    code.Continues (addEach add code items).1 ∧
      List.Forall₂ (fun item label => ∃ part : Code, code.Continues part ∧ part.size = label ∧
        (add part item).Continues (addEach add code items).1) items (addEach add code items).2 := by
  induction items generalizing code with
  | nil => exact ⟨.refl code, .nil⟩
  | cons item rest ih =>
    obtain ⟨hall, hpieces⟩ := ih (add code item)
    refine ⟨(hadd code item).trans hall, .cons ⟨code, .refl code, rfl, hall⟩ (hpieces.imp ?_)⟩
    -- what was in front of a later piece has the first one in it
    rintro item' label ⟨part, hpart, hlabel, hin⟩
    exact ⟨part, (hadd code item).trans hpart, hlabel, hin⟩

/-! ### Pieces and moves -/

theorem Fit.emitAll (h : code.Fit) (instructions : List Instruction) : (code.emitAll instructions).Fit := by
  induction instructions generalizing code with
  | nil => exact h
  | cons instruction rest ih => exact ih (h.emit instruction)

theorem moveTo_emitAll (h : code.Fit) (instructions : List Instruction) (base : UInt32) :
    (code.emitAll instructions).moveTo base = (code.moveTo base).emitAll instructions := by
  induction instructions generalizing code with
  | nil => rfl
  | cons instruction rest ih =>
    have hrest := ih (h.emit instruction)
    rw [moveTo_emit h] at hrest
    exact hrest

private theorem Fit.addCopy {entry : Code} (h : code.Fit) (hentry : entry.Fit) : (code.addCopy entry).Fit :=
  (h.merge hentry).emit _

private theorem moveTo_addCopy {entry : Code} (h : code.Fit) (hentry : entry.Fit) (base : UInt32) :
    (code.addCopy entry).moveTo base = (code.moveTo base).addCopy entry := by
  unfold addCopy
  rw [moveTo_emit (h.merge hentry), moveTo_merge h hentry]

/-- Pieces that move on their own move together, and their labels stay. -/
theorem moveTo_addEach {α : Type} {add : Code → α → Code} (items : List α) (h : code.Fit)
    (hfit : ∀ code, code.Fit → ∀ item ∈ items, (add code item).Fit)
    (hmove : ∀ code, code.Fit → ∀ item ∈ items, ∀ base, (add code item).moveTo base = add (code.moveTo base) item)
    (base : UInt32) :
    (addEach add code items).1.Fit ∧ (addEach add (code.moveTo base) items).1 = (addEach add code items).1.moveTo base ∧
      (addEach add (code.moveTo base) items).2 = (addEach add code items).2 := by
  induction items generalizing code with
  | nil => exact ⟨h, rfl, rfl⟩
  | cons item rest ih =>
    have hitem := List.mem_cons_self (a := item) (l := rest)
    obtain ⟨hall, hcode, hlabels⟩ := ih (hfit code h item hitem)
      (fun code hcode item' hmem => hfit code hcode item' (List.mem_cons_of_mem _ hmem))
      (fun code hcode item' hmem => hmove code hcode item' (List.mem_cons_of_mem _ hmem))
    rw [hmove code h item hitem] at hcode hlabels
    refine ⟨hall, hcode, ?_⟩
    simp only [addEach, hlabels, size_moveTo h]

end Code

namespace Head

/-! ### The block in place -/

def addTarget (code : Code) (target : Site × Nat) : Code := code.addWrapper flagLabel target.2 target.1

theorem continues_addTarget (code : Code) (target : Site × Nat) : code.Continues (addTarget code target) :=
  code.continues_emitAll _

def copied (base : UInt32) (snapshots : List Snapshot) : Code × List Nat :=
  ((Code.emptyAt base).data [Flag.idle]).addEach (fun code s => code.addCopy s.code) snapshots

def targets (base : UInt32) (snapshots : List Snapshot) : List (Site × Nat) :=
  (snapshots.map (·.site)).zip (copied base snapshots).2

def wrapped (base : UInt32) (snapshots : List Snapshot) : Code × List Nat :=
  (copied base snapshots).1.addEach addTarget (targets base snapshots)

/-- The head block for the given sites, assembled for an address. -/
def buildAt (base : UInt32) (snapshots : List Snapshot) : Head where
  code := (wrapped base snapshots).1
  sites := ((targets base snapshots).zip (wrapped base snapshots).2).map fun (target, wrapper) =>
    ⟨target.1, target.2, wrapper⟩

theorem build_eq (snapshots : List Snapshot) : build snapshots = buildAt Code.unplaced snapshots := rfl

variable {snapshots : List Snapshot}

theorem copied_moveTo (h : ∀ s ∈ snapshots, s.code.Fit) (base : UInt32) :
    (copied Code.unplaced snapshots).1.Fit ∧
      (copied base snapshots).1 = (copied Code.unplaced snapshots).1.moveTo base ∧
      (copied base snapshots).2 = (copied Code.unplaced snapshots).2 := by
  have hstart := (Code.fit_emptyAt Code.unplaced).data [Flag.idle]
  have hmoved := Code.moveTo_data (Code.fit_emptyAt Code.unplaced) [Flag.idle] base
  have := Code.moveTo_addEach snapshots hstart (fun code hcode s hs => hcode.addCopy (h s hs))
    (fun code hcode s hs => Code.moveTo_addCopy hcode (h s hs)) base
  rw [hmoved] at this
  exact this

private theorem wrapped_moveTo (h : ∀ s ∈ snapshots, s.code.Fit) (base : UInt32) :
    (wrapped base snapshots).1 = (wrapped Code.unplaced snapshots).1.moveTo base ∧
      (wrapped base snapshots).2 = (wrapped Code.unplaced snapshots).2 := by
  obtain ⟨hfit, hcode, hcopies⟩ := copied_moveTo h base
  have htargets : targets base snapshots = targets Code.unplaced snapshots := by unfold targets; rw [hcopies]
  have hadd : ∀ code : Code, code.Fit → ∀ target : Site × Nat, (addTarget code target).Fit := by
    intro code hcode target
    exact hcode.emitAll _
  have hmove : ∀ code : Code, code.Fit → ∀ (target : Site × Nat) (base : UInt32),
      (addTarget code target).moveTo base = addTarget (code.moveTo base) target := by
    intro code hcode target base
    exact Code.moveTo_emitAll hcode _ base
  have hmoved := Code.moveTo_addEach (targets Code.unplaced snapshots) hfit
    (fun code hcode target _ => hadd code hcode target) (fun code hcode target _ => hmove code hcode target) base
  unfold wrapped
  rw [hcode, htargets]
  exact hmoved.2

/-- The block moved to an address is the block assembled for this address. -/
theorem moveTo_build (h : ∀ s ∈ snapshots, s.code.Fit) (base : UInt32) :
    (build snapshots).moveTo base = buildAt base snapshots := by
  obtain ⟨hcode, hwrappers⟩ := wrapped_moveTo h base
  have htargets : targets base snapshots = targets Code.unplaced snapshots := by
    unfold targets
    rw [(copied_moveTo h base).2.2]
  rw [build_eq]
  unfold moveTo buildAt
  rw [hcode, hwrappers, htargets]

/-! ### Where the pieces are -/

/-- What a block has for a snapshot: a copy and a wrapper, at the labels of the layout and behind the flag. -/
structure Lays (head : Head) (snapshot : Snapshot) (layout : SiteLayout) : Prop where
  site : layout.site = snapshot.site
  copy : ∃ part : Code, 0 < part.size ∧ part.size = layout.copy ∧ (part.addCopy snapshot.code).Continues head.code
  wrapper : ∃ part : Code, 0 < part.size ∧ part.size = layout.wrapper ∧
    (addTarget part (layout.site, layout.copy)).Continues head.code

private theorem lays_layouts {head : Head} {snapshots : List Snapshot} {copies wrappers : List Nat}
    (hcopies : List.Forall₂ (fun s label => ∃ part : Code, 0 < part.size ∧ part.size = label ∧
      (part.addCopy s.code).Continues head.code) snapshots copies)
    (hwrappers : List.Forall₂ (fun target label => ∃ part : Code, 0 < part.size ∧ part.size = label ∧
      (addTarget part target).Continues head.code) ((snapshots.map (·.site)).zip copies) wrappers) :
    List.Forall₂ head.Lays snapshots ((((snapshots.map (·.site)).zip copies).zip wrappers).map
      fun (target, wrapper) => ⟨target.1, target.2, wrapper⟩) := by
  induction hcopies generalizing wrappers with
  | nil => exact .nil
  | cons hcopy _ ih =>
    cases hwrappers with
    | cons hwrapper hrest => exact .cons ⟨rfl, hcopy, hwrapper⟩ (ih hrest)

theorem lays_buildAt (base : UInt32) (snapshots : List Snapshot) :
    List.Forall₂ (buildAt base snapshots).Lays snapshots (buildAt base snapshots).sites := by
  obtain ⟨hcopied, hcopies⟩ := Code.addEach_pieces (fun code (s : Snapshot) => code.continues_addCopy s.code)
    ((Code.emptyAt base).data [Flag.idle]) snapshots
  obtain ⟨hwrapped, hwrappers⟩ :=
    Code.addEach_pieces continues_addTarget (copied base snapshots).1 (targets base snapshots)
  refine lays_layouts (hcopies.imp ?_) (hwrappers.imp ?_)
  · rintro s label ⟨part, hpart, hlabel, hin⟩
    exact ⟨part, hpart.size_le, hlabel, hin.trans hwrapped⟩
  · rintro target label ⟨part, hpart, hlabel, hin⟩
    exact ⟨part, (hcopied.trans hpart).size_le, hlabel, hin⟩

/-- The block begins with the lowered flag. -/
theorem continues_buildAt (base : UInt32) (snapshots : List Snapshot) :
    ((Code.emptyAt base).data [Flag.idle]).Continues (buildAt base snapshots).code := by
  have hcopied := (Code.addEach_pieces (fun code (s : Snapshot) => code.continues_addCopy s.code)
    ((Code.emptyAt base).data [Flag.idle]) snapshots).1
  exact hcopied.trans (Code.addEach_pieces continues_addTarget (copied base snapshots).1 (targets base snapshots)).1

@[simp] theorem buildAt_base (base : UInt32) (snapshots : List Snapshot) : (buildAt base snapshots).code.base = base :=
  (continues_buildAt base snapshots).base

end Head

theorem bytes_redirect (address wrapper : UInt32) :
    (redirect address wrapper).bytes = 0xE9 :: Bytes.littleEndian32 (wrapper - (address + 5)) := by
  have hdistance : wrapper - (address + 5) = wrapper - address - 5 := by grind
  rw [hdistance]
  rfl

theorem length_redirect (address wrapper : UInt32) : (redirect address wrapper).bytes.length = 5 := by
  rw [bytes_redirect]
  rfl

/-! ### The size of the block -/

def Site.wrapperSize (site : Site) : Nat :=
  (Instruction.forwardBytes site.stackArgs).length + 19 + if site.stackArgs.toUInt16 * 4 = 0 then 1 else 3

namespace Code

private theorem size_addCopy (code : Code) {entry : Code} (h : entry.Fit) :
    (code.addCopy entry).size = code.size + (entry.size + 5) := by
  have hentry : (entry.moveTo code.endAddress).bytes.length = entry.size := size_moveTo h _
  unfold addCopy emit merge
  rw [size_append, size_append, Instruction.encode_jumpAddress]
  simp only [Fragment.withField, hentry, List.length_append, Bytes.length_littleEndian32, List.length_cons,
    List.length_nil]
  omega

private theorem size_addEach {α : Type} {add : Code → α → Code} {size' : α → Nat} (code : Code) {items : List α}
    (h : ∀ (code : Code), ∀ item ∈ items, (add code item).size = code.size + size' item) :
    (addEach add code items).1.size = code.size + (items.map size').sum := by
  induction items generalizing code with
  | nil => rfl
  | cons item rest ih =>
    have hrest := ih (add code item) fun code item' hitem => h code item' (List.mem_cons_of_mem _ hitem)
    rw [h code item (List.mem_cons_self ..)] at hrest
    rw [List.map_cons, List.sum_cons, ← Nat.add_assoc]
    exact hrest

end Code

namespace Head

theorem size_addTarget (code : Code) (target : Site × Nat) :
    (addTarget code target).size = code.size + target.1.wrapperSize := by
  obtain ⟨site, copy⟩ := target
  have hstore : ∀ (code : Code) (value : UInt8),
      ((Instruction.storeByteLabel flagLabel value).encode code).bytes.length = 7 := fun _ _ => rfl
  have hcall : ∀ code : Code, ((Instruction.callLabel copy site.stackArgs).encode code).bytes.length =
      (Instruction.forwardBytes site.stackArgs).length + 5 := by
    intro code
    simp only [Instruction.encode, Instruction.callBytes, List.length_append, List.length_cons,
      Bytes.length_littleEndian32]
  have hret : ∀ code : Code, ((Instruction.ret (site.stackArgs.toUInt16 * 4)).encode code).bytes.length =
      if site.stackArgs.toUInt16 * 4 = 0 then 1 else 3 := by
    intro code
    simp only [Instruction.encode]
    split <;> rfl
  simp only [addTarget, Code.addWrapper, Code.emitAll, List.foldl_cons, List.foldl_nil, Code.emit, Code.size_append,
    hstore, hcall, hret, Site.wrapperSize]
  omega

theorem Lays.wrapper_lt {head : Head} {snapshot : Snapshot} {layout : SiteLayout} (h : head.Lays snapshot layout) :
    0 < layout.wrapper ∧ layout.wrapper < head.code.size := by
  obtain ⟨part, hpos, hlabel, hin⟩ := h.wrapper
  have hsize := hin.size_le
  rw [size_addTarget] at hsize
  unfold Site.wrapperSize at hsize
  omega

/-- The flag, a copy with its jump for each snapshot, and a wrapper for each. -/
theorem size_buildAt {snapshots : List Snapshot} (h : ∀ s ∈ snapshots, s.code.Fit) (base : UInt32) :
    (buildAt base snapshots).code.size =
      1 + (snapshots.map fun s => s.code.size + 5).sum + (snapshots.map fun s => s.site.wrapperSize).sum := by
  have hcopy : ∀ code : Code, ∀ s ∈ snapshots, (code.addCopy s.code).size = code.size + (s.code.size + 5) :=
    fun code s hs => code.size_addCopy (h s hs)
  have hcopied := Code.size_addEach ((Code.emptyAt base).data [Flag.idle]) hcopy
  have hwrapped := Code.size_addEach (copied base snapshots).1
    fun code target (_ : target ∈ targets base snapshots) => size_addTarget code target
  have hlength : (copied base snapshots).2.length = snapshots.length :=
    ((Code.addEach_pieces (fun code (s : Snapshot) => code.continues_addCopy s.code) _ snapshots).2.length_eq).symm
  have htargets : (targets base snapshots).map (·.1.wrapperSize) = snapshots.map (·.site.wrapperSize) := by
    have hfirst : (targets base snapshots).map Prod.fst = snapshots.map (·.site) :=
      List.map_fst_zip (Nat.le_of_eq (by rw [List.length_map, hlength]))
    have := congrArg (List.map Site.wrapperSize) hfirst
    rwa [List.map_map, List.map_map] at this
  rw [htargets] at hwrapped
  refine hwrapped.trans ?_
  rw [copied, hcopied]
  rfl

end Head

end LoadRemover
