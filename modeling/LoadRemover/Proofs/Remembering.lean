import LoadRemover.Proofs.Calls

/-!
# Processes kept in memory remember what is written to them

What is known of a process after any number of calls (`Target.Recalls`) is carried from call to call by their effects.
So the process is the map of bytes that a test takes it for (`Target.Remembers`), if there is room for all blocks
(`Target.Orderly`): what is read was written last, what fails changes nothing, and no block is where another one was.
-/

namespace LoadRemover.InMemory

namespace Target

variable {origin t t' : Target} {exchange : Exchange} {a : UInt32} {bytes : Bytes} {n size : Nat} {past : List Call}
  {call : Call}

/-! ### Any number of calls -/

/-- A process in which nothing was allocated yet, and calls that it has room for: its mapped regions overlap neither
each other nor the blocks that it hands out, which are smaller than its address space and do not run over its end. -/
structure Orderly (origin : Target) (calls : List Call) : Prop where
  fresh : origin.Fresh
  apart : origin.mapped.Pairwise Region.Disjoint
  clear : ∀ size base, ⟨.use (.allocate size), .address base⟩ ∈ origin.exchanges calls →
    ∀ region ∈ origin.mapped, region.Disjoint (.zeros base.toNat size)
  small : ∀ size, .use (.allocate size) ∈ calls → size < 2 ^ 32
  bounded : (origin.afterAll calls).nextBlock ≤ 2 ^ 32

private theorem nextBlock_after_le (t : Target) (call : Call) : t.nextBlock ≤ (t.after call).nextBlock := by
  rcases call with _ | _ | one
  · exact Nat.le_refl _
  · exact Nat.le_refl _
  · exact (turns_use _ one).nextBlock

private theorem Orderly.of_concat (h : origin.Orderly (past ++ [call])) : origin.Orderly past where
  fresh := h.fresh
  apart := h.apart
  clear size base hmem := h.clear size base (by
    rw [exchanges_concat]
    exact List.mem_append_left _ hmem)
  small size hmem := h.small size (List.mem_append_left _ hmem)
  bounded := by
    refine Nat.le_trans ?_ h.bounded
    rw [afterAll_concat]
    exact nextBlock_after_le _ call

/-- The byte that is at an address in the beginning, of the process or of a block. -/
def initial (origin : Target) (x : Nat) : UInt8 := (origin.contents.byte x).getD 0

/-- What is known of a process after some calls. -/
structure Recalls (origin : Target) (past : List Exchange) (t : Target) : Prop where
  separate : t.Separate
  mapped : t.mapped.map Region.extent = origin.mapped.map Region.extent
  contents : t.contents = past.foldl Contents.next origin.contents
  /-- Bytes were put only where there was memory. -/
  stored : ∀ x, lastStored? past x ≠ none → origin.contents.byte x ≠ none ∨ x < t.nextBlock
  byte : ∀ x b, t.contents.byte x = some b → b = (lastStored? past x).getD (origin.initial x)
  given : ∀ size base, ⟨.use (.allocate size), .address base⟩ ∈ past → base.toNat < t.nextBlock
  requested : ∀ base size, t.contents.block base = some size →
    ∃ a : UInt32, a.toNat = base ∧ ⟨.use (.allocate size), .address a⟩ ∈ past

namespace Recalls

variable {past : List Exchange}

private theorem nil (hfresh : origin.Fresh) (hapart : origin.mapped.Pairwise Region.Disjoint) :
    origin.Recalls [] origin where
  separate := by
    refine ⟨?_, ?_, ?_⟩
    · rw [Target.regions, hfresh.blocks, List.append_nil]
      exact hapart
    · rw [hfresh.blocks]
      exact fun _ hblock => absurd hblock List.not_mem_nil
    · rw [hfresh.blocks]
      exact List.nodup_nil
  mapped := rfl
  contents := rfl
  stored _ h := absurd rfl h
  byte x b h := by
    rw [initial, h]
    rfl
  given _ _ h := absurd h List.not_mem_nil
  requested base size h := by
    have hnone : origin.contents.block base = none := by
      change sizeIn origin.blocks base = none
      rw [hfresh.blocks]
      rfl
    rw [hnone] at h
    cases h

section Steps

variable (h : origin.Recalls past t)
include h

/-- There is memory where there was some in the beginning, and in the blocks. -/
private theorem byte_ne_none_iff (hfresh : origin.Fresh) {x : Nat} : t.contents.byte x ≠ none ↔
    origin.contents.byte x ≠ none ∨ ∃ base size, t.contents.block base = some size ∧ base ≤ x ∧ x < base + size := by
  have hmapped : origin.contents.byte x = none ↔ byteIn t.mapped x = none := by
    change byteIn (origin.mapped ++ origin.blocks) x = none ↔ _
    rw [hfresh.blocks, List.append_nil, byteIn_eq_none_congr h.mapped]
  have hblocks : byteIn t.blocks x ≠ none ↔
      ∃ base size, t.contents.block base = some size ∧ base ≤ x ∧ x < base + size := by
    rw [byteIn_ne_none_iff]
    constructor
    · rintro ⟨block, hblock, hhas⟩
      exact ⟨block.base, block.size, sizeIn_of_mem h.separate.bases hblock, hhas⟩
    · rintro ⟨base, size, hsize, hx⟩
      obtain ⟨block, hfind, rfl, rfl⟩ := find?_of_sizeIn hsize
      exact ⟨block, List.mem_of_find?_eq_some hfind, hx⟩
  change byteIn (t.mapped ++ t.blocks) x ≠ none ↔ _
  rw [← hblocks, Ne, Ne, Ne, hmapped, byteIn_append, Option.or_eq_none_iff, not_and_or]

/-- What the blocks have lies below the next address. -/
private theorem lt_nextBlock (hfresh : origin.Fresh) {x : Nat} (hx : t.contents.byte x ≠ none) :
    origin.contents.byte x ≠ none ∨ x < t.nextBlock := by
  refine ((h.byte_ne_none_iff hfresh).1 hx).imp_right ?_
  rintro ⟨base, size, hsize, -, hlt⟩
  obtain ⟨block, hfind, rfl, rfl⟩ := find?_of_sizeIn hsize
  exact Nat.lt_of_lt_of_le hlt (h.separate.below block (List.mem_of_find?_eq_some hfind)).2

private theorem store (hfresh : origin.Fresh) (hnext : ∀ m : Contents, m.next exchange = m.store a.toNat bytes)
    (hstored : ∀ x, exchange.stored? x = if a.toNat ≤ x then bytes[x - a.toNat]? else none)
    (haddress : ∀ base, exchange.answer ≠ .address base) (hshape : t.SameShape t')
    (hregions : pokeIn t.regions a.toNat bytes = some t'.regions) : origin.Recalls (past ++ [exchange]) t' := by
  have hcontents := h.separate.contents_of_poke hshape hregions
  have hnew : ∀ size base, ⟨.use (.allocate size), .address base⟩ ∈ past ++ [exchange] →
      ⟨.use (.allocate size), .address base⟩ ∈ past := by
    intro size base hmem
    refine (List.mem_append.1 hmem).resolve_right fun hlast => ?_
    exact haddress base (congrArg Exchange.answer (List.mem_singleton.1 hlast)).symm
  have hin : ∀ x, exchange.stored? x ≠ none ↔ a.toNat ≤ x ∧ x < a.toNat + bytes.length := by
    intro x
    rw [hstored]
    split
    · rw [Ne, List.getElem?_eq_none_iff]
      omega
    · simp only [ne_eq, not_true_eq_false, false_iff]
      omega
  refine ⟨h.separate.congr hshape, hshape.mapped.trans h.mapped, ?_, ?_, ?_, ?_, ?_⟩
  · rw [List.foldl_concat, hnext, ← h.contents]
    exact hcontents
  · intro x hx
    rw [lastStored?_concat, Ne, Option.or_eq_none_iff, not_and_or] at hx
    rw [hshape.nextBlock]
    rcases hx with hlast | hbefore
    · -- the region that took the bytes has all of their addresses
      obtain ⟨region, hregion, hcovers⟩ := exists_covers_of_pokeIn hregions
      refine h.lt_nextBlock hfresh (byteIn_ne_none_iff.2 ⟨region, hregion, ?_⟩)
      obtain ⟨hfrom, hto⟩ := (hin x).1 hlast
      rw [Region.covers_iff] at hcovers
      constructor <;> omega
    · exact h.stored x hbefore
  · intro x b hx
    rw [hcontents] at hx
    rw [lastStored?_concat, hstored]
    simp only [Contents.store] at hx
    split at hx
    · next hrange => rw [if_pos hrange.1, hx, Option.some_or, Option.getD_some]
    · next hrange =>
      have hnone : exchange.stored? x = none := not_not.1 ((hin x).not.2 hrange)
      rw [← hstored, hnone, Option.none_or]
      exact h.byte x b hx
  · intro size base hmem
    rw [hshape.nextBlock]
    exact h.given size base (hnew size base hmem)
  · intro base size hsize
    rw [hcontents] at hsize
    obtain ⟨base', hbase, hmem⟩ := h.requested base size hsize
    exact ⟨base', hbase, List.mem_append_left _ hmem⟩

private theorem lend {size : Nat} (hfresh : origin.Fresh) (hroom : t.Room size) :
    origin.Recalls (past ++ [⟨.use (.allocate size), .address (.ofNat t.nextBlock)⟩]) (t.lend size (span size)) := by
  have hcontents := h.separate.contents_lend hroom
  have haddress : (UInt32.ofNat t.nextBlock).toNat = t.nextBlock := UInt32.toNat_ofNat_of_lt' hroom.address
  have hnext : t.nextBlock < (t.lend size (span size)).nextBlock := Nat.lt_add_of_pos_right (span_pos size)
  have hstored : ∀ x, lastStored? (past ++ [⟨.use (.allocate size), .address (.ofNat t.nextBlock)⟩]) x =
      lastStored? past x := fun x => lastStored?_concat ..
  refine ⟨h.separate.lend hroom, h.mapped, ?_, ?_, ?_, ?_, ?_⟩
  · rw [List.foldl_concat, ← h.contents, hcontents, Contents.next, haddress]
  · intro x hx
    rw [hstored] at hx
    exact (h.stored x hx).imp_right fun hlt => Nat.lt_trans hlt hnext
  · intro x b hx
    rw [hcontents] at hx
    rw [hstored]
    simp only [Contents.lend] at hx
    split at hx
    · next hrange =>
      -- there was no memory at the addresses of the new block before, so nothing was put there
      have horigin : origin.contents.byte x = none := by
        change byteIn (origin.mapped ++ origin.blocks) x = none
        rw [hfresh.blocks, List.append_nil, ← byteIn_eq_none_congr h.mapped, byteIn_eq_none_iff]
        exact fun region hregion hhas => hroom.clear region hregion x hhas hrange
      have hnothing : lastStored? past x = none := by
        by_contra hsome
        rcases h.stored x hsome with hbyte | hlt
        · exact hbyte horigin
        · omega
      rw [hnothing, initial, horigin]
      exact (Option.some.inj hx).symm
    · exact h.byte x b hx
  · intro size' base hmem
    rcases List.mem_append.1 hmem with hbefore | hlast
    · exact Nat.lt_trans (h.given size' base hbefore) hnext
    · obtain rfl := Answer.address.inj (congrArg Exchange.answer (List.mem_singleton.1 hlast))
      rw [haddress]
      exact hnext
  · intro base size' hsize
    rw [hcontents] at hsize
    simp only [Contents.lend] at hsize
    split at hsize
    · next hbase =>
      obtain rfl := Option.some.inj hsize
      exact ⟨.ofNat t.nextBlock, haddress.trans hbase.symm, List.mem_append_right _ (List.mem_singleton_self _)⟩
    · obtain ⟨base', hbase, hmem⟩ := h.requested base size' hsize
      exact ⟨base', hbase, List.mem_append_left _ hmem⟩

/-- A call that puts no bytes anywhere and allocates no block can only take memory away. -/
private theorem less (hseparate : t'.Separate) (hmapped : t'.mapped = t.mapped)
    (hnextBlock : t'.nextBlock = t.nextBlock)
    (hnext : t'.contents = t.contents.next exchange) (hstored : ∀ x, exchange.stored? x = none)
    (haddress : ∀ base, exchange.answer ≠ .address base)
    (hbyte : ∀ x b, t'.contents.byte x = some b → t.contents.byte x = some b)
    (hblock : ∀ base size, t'.contents.block base = some size → t.contents.block base = some size) :
    origin.Recalls (past ++ [exchange]) t' := by
  have hsame : ∀ x, lastStored? (past ++ [exchange]) x = lastStored? past x := by
    intro x
    rw [lastStored?_concat, hstored, Option.none_or]
  refine ⟨hseparate, ?_, ?_, ?_, ?_, ?_, ?_⟩
  · rw [hmapped]
    exact h.mapped
  · rw [List.foldl_concat, ← h.contents]
    exact hnext
  · intro x hx
    rw [hsame] at hx
    rw [hnextBlock]
    exact h.stored x hx
  · intro x b hx
    rw [hsame]
    exact h.byte x b (hbyte x b hx)
  · intro size base hmem
    rw [hnextBlock]
    rcases List.mem_append.1 hmem with hbefore | hlast
    · exact h.given size base hbefore
    · exact absurd (congrArg Exchange.answer (List.mem_singleton.1 hlast)).symm (haddress base)
  · intro base size hsize
    obtain ⟨base', hbase, hmem⟩ := h.requested base size (hblock base size hsize)
    exact ⟨base', hbase, List.mem_append_left _ hmem⟩

private theorem release (hallocated : t.isAllocated a = true) :
    origin.Recalls (past ++ [⟨.use (.free a), .done⟩]) { t with blocks := t.blocks.eraseP (·.base == a.toNat) } := by
  have hcontents := h.separate.contents_release hallocated
  refine h.less h.separate.release rfl rfl hcontents (fun _ => rfl) nofun (fun x b hx => ?_) fun base size hsize => ?_
  · rw [hcontents] at hx
    simp only [Contents.release] at hx
    split at hx
    · cases hx
    · exact hx
  · rw [hcontents] at hsize
    simp only [Contents.release] at hsize
    split at hsize
    · cases hsize
    · exact hsize

private theorem idle (hidle : exchange.Idle) (hmapped : t'.mapped = t.mapped) (hblocks : t'.blocks = t.blocks)
    (hnextBlock : t'.nextBlock = t.nextBlock) : origin.Recalls (past ++ [exchange]) t' := by
  have hcontents := contents_congr hmapped hblocks
  refine h.less ⟨?_, ?_, ?_⟩ hmapped hnextBlock ?_ hidle.stored hidle.address ?_ ?_
  · rw [Target.regions, hmapped, hblocks]
    exact h.separate.apart
  · rw [hblocks, hnextBlock]
    exact h.separate.below
  · rw [hblocks]
    exact h.separate.bases
  · rw [hcontents, hidle.next]
  · rw [hcontents]
    exact fun _ _ => id
  · rw [hcontents]
    exact fun _ _ => id

/-- One call, whatever it is and however it goes. -/
private theorem step (hfresh : origin.Fresh)
    (hroom : ∀ size base, exchange = ⟨.use (.allocate size), .address base⟩ → t.Room size)
    (heffect : t.Effect exchange t') : origin.Recalls (past ++ [exchange]) t' := by
  cases heffect with
  | store hexchange hshape hregions =>
    rcases hexchange with rfl | rfl
    · exact h.store hfresh (fun _ => rfl) (fun _ => rfl) nofun hshape hregions
    · exact h.store hfresh (fun _ => rfl) (fun _ => rfl) nofun hshape hregions
  | lend size => exact h.lend hfresh (hroom size _ rfl)
  | release hallocated => exact h.release hallocated
  | idle hidle hmapped hblocks hnextBlock => exact h.idle hidle hmapped hblocks hnextBlock

end Steps

end Recalls

/-- Only an allocation is answered with an address. -/
private theorem exists_of_address (h : t.answer call = .address a) : ∃ size, call = .use (.allocate size) := by
  have heffect := t.effect call
  rw [h] at heffect
  generalize t.after call = t' at heffect
  cases heffect with
  | store hexchange _ _ => rcases hexchange with hexchange | hexchange <;> cases hexchange
  | lend size => exact ⟨size, rfl⟩
  | idle hidle _ _ _ => exact absurd rfl (hidle.address a)

private theorem lend_of_address (h : t.answer (.use (.allocate size)) = .address a) :
    a = .ofNat t.nextBlock ∧ t.after (.use (.allocate size)) = t.lend size (span size) := by
  rw [answer] at h
  change a = _ ∧ (t.allocate size).2 = _
  unfold Target.allocate at h ⊢
  split at h
  · cases h
  · next hexited =>
    rw [if_neg hexited]
    exact ⟨(Answer.address.inj h).symm, rfl⟩

private theorem nextBlock_le_afterAll (t : Target) (calls : List Call) :
    t.nextBlock ≤ (t.afterAll calls).nextBlock := by
  induction calls generalizing t with
  | nil => exact Nat.le_refl _
  | cons call rest ih => exact Nat.le_trans (nextBlock_after_le t call) (ih (t.after call))

private theorem nextBlock_le_of_mem {calls : List Call} (hbounded : (t.afterAll calls).nextBlock ≤ 2 ^ 32)
    (h : ⟨.use (.allocate size), .address a⟩ ∈ t.exchanges calls) : t.nextBlock ≤ a.toNat := by
  induction calls generalizing t with
  | nil => cases h
  | cons call rest ih =>
    rcases List.mem_cons.1 h with hfirst | hlater
    · obtain ⟨rfl, hanswer⟩ := Exchange.mk.inj hfirst
      obtain ⟨rfl, hlend⟩ := lend_of_address hanswer.symm
      have hlater := nextBlock_le_afterAll (t.after (.use (.allocate size))) rest
      rw [hlend] at hlater
      have hlt : t.nextBlock < 2 ^ 32 := Nat.lt_of_lt_of_le (Nat.lt_add_of_pos_right (span_pos size))
        (Nat.le_trans hlater (hlend ▸ hbounded))
      rw [UInt32.toNat_ofNat_of_lt' hlt]
    · exact Nat.le_trans (nextBlock_after_le t call) (ih hbounded hlater)

/-- It is enough that all mapped regions lie below the addresses that are handed out. -/
private theorem orderly_of_below {calls : List Call} (hfresh : origin.Fresh)
    (hapart : (origin.mapped.map Region.extent).Pairwise fun e f => e.1 + e.2 ≤ f.1 ∨ f.1 + f.2 ≤ e.1)
    (hbelow : ∀ e ∈ origin.mapped.map Region.extent, e.1 + e.2 ≤ firstBlock)
    (hsmall : ∀ size, .use (.allocate size) ∈ calls → size < 2 ^ 32)
    (hbounded : (origin.afterAll calls).nextBlock ≤ 2 ^ 32) : origin.Orderly calls where
  fresh := hfresh
  apart := (fits_of_extents hapart hbelow (Nat.le_trans (nextBlock_le_afterAll origin calls) hbounded)).apart
  clear size base hmem region hregion x hx hnew := by
    have hfirst := nextBlock_le_of_mem hbounded hmem
    rw [hfresh.nextBlock] at hfirst
    have hend := hbelow _ (List.mem_map_of_mem hregion)
    exact absurd (Nat.lt_of_lt_of_le hx.2 hend) (Nat.not_lt.2 (Nat.le_trans hfirst hnew.1))
  small := hsmall
  bounded := hbounded

/-- Where there is room for all calls there is room for the last one. -/
private theorem Orderly.room (h : origin.Orderly (past ++ [call]))
    (hmapped : (origin.afterAll past).mapped.map Region.extent = origin.mapped.map Region.extent) (size : Nat)
    (base : UInt32) (hcall : (⟨call, (origin.afterAll past).answer call⟩ : Exchange) =
      ⟨.use (.allocate size), .address base⟩) : (origin.afterAll past).Room size := by
  have hlast : ⟨.use (.allocate size), .address base⟩ ∈ origin.exchanges (past ++ [call]) := by
    rw [exchanges_concat, hcall]
    exact List.mem_append_right _ (List.mem_singleton_self _)
  obtain ⟨rfl, hanswer⟩ := Exchange.mk.inj hcall
  obtain ⟨rfl, hlend⟩ := lend_of_address hanswer
  have hbounded := h.bounded
  rw [afterAll_concat, hlend] at hbounded
  have haddress : (origin.afterAll past).nextBlock < 2 ^ 32 :=
    Nat.lt_of_lt_of_le (Nat.lt_add_of_pos_right (span_pos size)) hbounded
  refine ⟨h.small size (List.mem_append_right _ (List.mem_singleton_self _)), haddress, fun region hregion x hx => ?_⟩
  have hbyte : byteIn origin.mapped x ≠ none :=
    (byteIn_eq_none_congr hmapped).not.1 (byteIn_ne_none_iff.2 ⟨region, hregion, hx⟩)
  obtain ⟨first, hfirst, hhas⟩ := byteIn_ne_none_iff.1 hbyte
  have hclear := h.clear size _ hlast first hfirst x hhas
  rwa [UInt32.toNat_ofNat_of_lt' haddress] at hclear

/-- Whatever was called, and however it went. -/
private theorem Orderly.recalls (h : origin.Orderly past) :
    origin.Recalls (origin.exchanges past) (origin.afterAll past) := by
  induction past using List.reverseRecOn with
  | nil => exact .nil h.fresh h.apart
  | append_singleton past call ih =>
    have hpast := ih h.of_concat
    rw [exchanges_concat, afterAll_concat]
    exact hpast.step h.fresh (h.room hpast.mapped) ((origin.afterAll past).effect call)

/-! ### What is remembered -/

private theorem exited_after (h : t.exited = true) (call : Call) : (t.after call).exited = true := by
  rcases call with _ | _ | one
  · exact h
  · exact h
  cases one with
  | write a bytes =>
    change (t.write a bytes).2.exited = true
    rw [Target.write, if_pos h]
    exact h
  | allocate size =>
    change (t.allocate size).2.exited = true
    rw [Target.allocate, if_pos h]
    exact h
  | free a =>
    change (t.free a).2.exited = true
    unfold Target.free
    split <;> exact h
  | poke a bytes =>
    change ((t.poke? a bytes).getD t).exited = true
    rw [poke?_eq]
    cases pokeIn t.mapped a.toNat bytes with
    | some mapped => exact h
    | none => cases pokeIn t.blocks a.toNat bytes <;> exact h
  | kill => rfl
  | refuseReads refuse => exact h
  | refuseWrite n => exact h

/-- After the end of a process nothing is read from it, written to it or allocated in it. -/
private theorem answer_exited (h : t.exited = true) (hcall : (∃ a n, call = .read a n) ∨
    (∃ a bytes, call = .use (.write a bytes)) ∨ ∃ size, call = .use (.allocate size)) : t.answer call = .failed := by
  rcases hcall with ⟨a, n, rfl⟩ | ⟨a, bytes, rfl⟩ | ⟨size, rfl⟩
  · rw [answer, Target.read, if_pos h]
    rfl
  · rw [answer, Target.write, if_pos h]
    rfl
  · rw [answer, Target.allocate, if_pos h]
    rfl

private theorem exited_of_kill (h : .use .kill ∈ past) : (origin.afterAll past).exited = true := by
  induction past using List.reverseRecOn with
  | nil => cases h
  | append_singleton past call ih =>
    rw [afterAll_concat]
    rcases List.mem_append.1 h with hbefore | hlast
    · exact exited_after (ih hbefore) call
    · rw [← List.mem_singleton.1 hlast]
      rfl

/-- What is shown is what the contents have. -/
private theorem shown_of_answer (h : t.Separate) (hcall : call = .read a n ∨ call = .peek a n)
    (hanswer : t.answer call = .bytes bytes) :
    bytes.length = n ∧ ∀ i < n, t.contents.byte (a.toNat + i) = bytes[i]? := by
  have hpeek : t.peek? a n = some bytes := by
    rcases hcall with rfl | rfl
    · rw [answer] at hanswer
      cases hread : t.read a n with
      | error failure =>
        rw [hread] at hanswer
        cases hanswer
      | ok shown =>
        rw [hread] at hanswer
        rw [← Answer.bytes.inj hanswer]
        exact peek?_of_read hread
    · rw [answer] at hanswer
      cases hpeek : t.peek? a n with
      | none =>
        rw [hpeek] at hanswer
        cases hanswer
      | some shown =>
        rw [hpeek] at hanswer
        rw [← Answer.bytes.inj hanswer]
  exact ⟨length_of_peek? hpeek, fun i hi => byteIn_of_peekIn h.apart hpeek hi⟩

private theorem free_done_iff : t.answer (.use (.free a)) = .done ↔ t.contents.block a.toNat ≠ none := by
  have hallocated : t.contents.block a.toNat ≠ none ↔ t.isAllocated a = true := by
    change sizeIn t.blocks a.toNat ≠ none ↔ _
    rw [Ne, sizeIn_eq_none_iff, Target.isAllocated, List.any_eq_true]
    simp only [ne_eq, not_forall, not_not, exists_prop, beq_iff_eq]
  rw [hallocated, answer]
  unfold Target.free
  split
  · next hyes => exact ⟨fun _ => hyes, fun _ => rfl⟩
  · next hno =>
    refine ⟨fun h => ?_, fun hyes => absurd hyes hno⟩
    cases h

/-- A process after the calls of the past as the map of bytes that its contents are, and one more call. -/
structure Remembers (origin : Target) (past : List Call) (call : Call) : Prop where
  /-- The calls that were answered have made the contents from those in the beginning. -/
  before : (origin.afterAll past).contents = (origin.exchanges past).foldl Contents.next origin.contents
  after : (origin.afterAll (past ++ [call])).contents =
    (origin.afterAll past).contents.next ⟨call, (origin.afterAll past).answer call⟩
  failed : (origin.afterAll past).answer call = .failed →
    (origin.afterAll (past ++ [call])).contents = (origin.afterAll past).contents
  /-- There is memory where there was some in the beginning, and in the blocks, which hold what was asked for. -/
  mapped : ∀ x, (origin.afterAll past).contents.byte x ≠ none ↔ origin.contents.byte x ≠ none ∨
    ∃ base size, (origin.afterAll past).contents.block base = some size ∧ base ≤ x ∧ x < base + size
  requested : ∀ base size, (origin.afterAll past).contents.block base = some size →
    ∃ a : UInt32, a.toNat = base ∧ ⟨.use (.allocate size), .address a⟩ ∈ origin.exchanges past
  apart : ∀ base size base' size', (origin.afterAll past).contents.block base = some size →
    (origin.afterAll past).contents.block base' = some size' → base ≠ base' →
      ∀ x, base ≤ x ∧ x < base + size → ¬ (base' ≤ x ∧ x < base' + size')
  /-- A block is not where another one was. -/
  new : ∀ a, (origin.afterAll past).answer call = .address a →
    ∀ size, ⟨.use (.allocate size), .address a⟩ ∉ origin.exchanges past
  shown : ∀ a n bytes, call = .read a n ∨ call = .peek a n → (origin.afterAll past).answer call = .bytes bytes →
    bytes.length = n ∧ ∀ i < n, (origin.afterAll past).contents.byte (a.toNat + i) = bytes[i]? ∧
      bytes[i]? = some ((lastStored? (origin.exchanges past) (a.toNat + i)).getD (origin.initial (a.toNat + i)))
  free : ∀ a, call = .use (.free a) →
    ((origin.afterAll past).answer call = .done ↔ (origin.afterAll past).contents.block a.toNat ≠ none) ∧
      ((origin.afterAll past).answer call = .done →
        (origin.afterAll (past ++ [call])).contents = (origin.afterAll past).contents.release a.toNat)
  killed : .use .kill ∈ past → (∃ a n, call = .read a n) ∨ (∃ a bytes, call = .use (.write a bytes)) ∨
    (∃ size, call = .use (.allocate size)) → (origin.afterAll past).answer call = .failed

/-- A process kept in memory is a map of bytes with blocks, whatever was called before and however it went. -/
theorem remembers_of_orderly (h : origin.Orderly (past ++ [call])) : origin.Remembers past call := by
  have hpast := h.of_concat.recalls
  have hall := h.recalls.contents
  have hafter : (origin.afterAll (past ++ [call])).contents =
      (origin.afterAll past).contents.next ⟨call, (origin.afterAll past).answer call⟩ := by
    rw [hall, exchanges_concat, List.foldl_concat, ← hpast.contents]
  refine ⟨hpast.contents, hafter, fun hfailed => ?_, fun _ => hpast.byte_ne_none_iff h.fresh, hpast.requested, ?_, ?_,
    ?_, ?_, fun hkill => answer_exited (exited_of_kill hkill)⟩
  · rw [hafter, hfailed, (Exchange.idle_failed call).next]
  · intro base size base' size' hsize hsize' hne x hx hx'
    obtain ⟨block, hfind, rfl, rfl⟩ := find?_of_sizeIn hsize
    obtain ⟨block', hfind', rfl, rfl⟩ := find?_of_sizeIn hsize'
    have hblocks := (List.pairwise_append.1 hpast.separate.apart).2.1
    have hother : block ≠ block' := fun hsame => hne (congrArg Region.base hsame)
    exact hblocks.forall (List.mem_of_find?_eq_some hfind) (List.mem_of_find?_eq_some hfind') hother x hx hx'
  · intro a hanswer size hmem
    -- only an allocation is answered with an address, and the next address lies above all that were given
    obtain ⟨size', rfl⟩ := exists_of_address hanswer
    have hroom := h.room hpast.mapped size' a (by rw [hanswer])
    obtain ⟨rfl, -⟩ := lend_of_address hanswer
    have hgiven := hpast.given size _ hmem
    rw [UInt32.toNat_ofNat_of_lt' hroom.address] at hgiven
    exact Nat.lt_irrefl _ hgiven
  · intro a n bytes hcall hanswer
    obtain ⟨hlength, hbytes⟩ := shown_of_answer hpast.separate hcall hanswer
    refine ⟨hlength, fun i hi => ⟨hbytes i hi, ?_⟩⟩
    have hbyte : bytes[i]? = some bytes[i] := List.getElem?_eq_getElem (hlength ▸ hi)
    rw [hbyte, ← hpast.byte _ _ ((hbytes i hi).trans hbyte)]
  · rintro a rfl
    refine ⟨free_done_iff, fun hanswer => ?_⟩
    rw [hafter, hanswer]
    rfl

/-- Two regions side by side; a write across their boundary fails, as does one that is refused; a block of no bytes has
an address of its own, and a released block does not come back. -/
theorem remembers_of_orderly_pages :
    let origin : Target :=
      { info := ⟨7, "mc2.exe"⟩, mapped := [.ofBytes 0x400000 [1, 2, 3, 4], .ofBytes 0x400004 [5, 6]] }
    let past : List Call := [.use (.write 0x400001 [9, 8]), .use (.write 0x400003 [1, 1]), .use (.allocate 0x1001),
      .use (.allocate 0), .use (.poke 0x1001000 [7]), .use (.free 0x1000000), .use (.free 0x1000000),
      .use (.allocate 3), .use (.refuseWrite 0), .use (.write 0x400000 [0]), .use (.poke 0x400002 [5]), .use .kill]
    origin.answer (.use (.write 0x400003 [1, 1])) = .failed ∧
      (origin.afterAll past).answer (.peek 0x400000 4) = .bytes [1, 9, 5, 4] ∧
        origin.Remembers past (.peek 0x400000 4) := by
  intro origin past
  have hbounded : (origin.afterAll (past ++ [.peek 0x400000 4])).nextBlock ≤ 2 ^ 32 := by decide +kernel
  have hsmall : ∀ size, .use (.allocate size) ∈ past ++ [.peek 0x400000 4] → size < 2 ^ 32 := by
    intro size hmem
    simp [past] at hmem
    omega
  have horderly : origin.Orderly (past ++ [.peek 0x400000 4]) :=
    orderly_of_below ⟨rfl, rfl⟩ (by decide) (by decide) hsmall hbounded
  exact ⟨by decide +kernel, by decide +kernel, remembers_of_orderly horderly⟩

end Target

end LoadRemover.InMemory
