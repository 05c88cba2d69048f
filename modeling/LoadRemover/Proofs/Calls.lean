import LoadRemover.Proofs.Contents
import LoadRemover.Proofs.Installing

/-!
# Calls of a process kept in memory

A test calls the functions of a process in any order. Each call has an answer and one of four effects on the process
(`Target.Effect`): it stores bytes, lends a block, releases one, or does nothing to the memory. As long as no two
regions overlap (`Target.Separate`), what it does to the contents, the map that the memory stands for, can be told from
its answer alone (`Contents.next`).
-/

namespace LoadRemover.InMemory

namespace Target

/-! ### Calls and answers -/

/-- A call of a test: to show bytes, or one of the uses. -/
inductive Call where
  | read (address : UInt32) (n : Nat)
  | peek (address : UInt32) (n : Nat)
  | use (one : Use)

inductive Answer where
  | bytes (bytes : Bytes)
  | address (address : UInt32)
  | done
  | failed
deriving DecidableEq

def Answer.ofResult {α : Type} (answer : α → Answer) : Except Failure α → Answer
  | .ok a => answer a
  | .error _ => failed

def answer (t : Target) : Call → Answer
  | .read address n => .ofResult .bytes (t.read address n)
  | .peek address n => ((t.peek? address n).map .bytes).getD .failed
  | .use (.write address bytes) => .ofResult (fun _ => .done) (t.write address bytes).1
  | .use (.allocate size) => .ofResult .address (t.allocate size).1
  | .use (.free address) => .ofResult (fun _ => .done) (t.free address).1
  | .use (.poke address bytes) => if (t.poke? address bytes).isSome then .done else .failed
  | .use .kill | .use (.refuseReads _) | .use (.refuseWrite _) => .done

def after (t : Target) : Call → Target
  | .read _ _ | .peek _ _ => t
  | .use one => t.use one

def afterAll (t : Target) (calls : List Call) : Target := calls.foldl after t

structure Exchange where
  call : Call
  answer : Answer

/-- The calls with their answers. -/
def exchanges (t : Target) : List Call → List Exchange
  | [] => []
  | call :: rest => ⟨call, t.answer call⟩ :: (t.after call).exchanges rest

theorem afterAll_concat (t : Target) (past : List Call) (call : Call) :
    t.afterAll (past ++ [call]) = (t.afterAll past).after call := List.foldl_concat ..

theorem exchanges_concat (t : Target) (past : List Call) (call : Call) :
    t.exchanges (past ++ [call]) = t.exchanges past ++ [⟨call, (t.afterAll past).answer call⟩] := by
  induction past generalizing t with
  | nil => rfl
  | cons first rest ih => exact congrArg (_ :: ·) (ih (t.after first))

end Target

open Target (Call Answer Exchange)

/-! ### The map that a test expects -/

/-- What a call does to the contents, going by its answer. -/
def Contents.next (m : Contents) : Exchange → Contents
  | ⟨.use (.write address bytes), .done⟩ => m.store address.toNat bytes
  | ⟨.use (.poke address bytes), .done⟩ => m.store address.toNat bytes
  | ⟨.use (.allocate size), .address base⟩ => m.lend base.toNat size
  | ⟨.use (.free address), .done⟩ => m.release address.toNat
  | _ => m

/-- The byte that the call has put at the address. -/
def Target.Exchange.stored? (x : Nat) : Exchange → Option UInt8
  | ⟨.use (.write address bytes), .done⟩ => if address.toNat ≤ x then bytes[x - address.toNat]? else none
  | ⟨.use (.poke address bytes), .done⟩ => if address.toNat ≤ x then bytes[x - address.toNat]? else none
  | _ => none

/-- The byte that the last of the calls to put one at the address has put there. -/
def lastStored? (exchanges : List Exchange) (x : Nat) : Option UInt8 := exchanges.reverse.findSome? (·.stored? x)

theorem lastStored?_concat (exchanges : List Exchange) (exchange : Exchange) (x : Nat) :
    lastStored? (exchanges ++ [exchange]) x = (exchange.stored? x).or (lastStored? exchanges x) := by
  unfold lastStored?
  rw [List.reverse_concat, List.findSome?_cons]
  cases exchange.stored? x <;> rfl

namespace Target

/-! ### The effects of calls -/

/-- What is handed out for a block. -/
def span (size : Nat) : Nat := max 1 ((size % 0x100000000 + pageSize - 1) / pageSize) * pageSize

theorem span_pos (size : Nat) : 0 < span size := by
  unfold span pageSize
  omega

private theorem le_span {size : Nat} (h : size < 2 ^ 32) : size ≤ span size := by
  unfold span pageSize
  omega

/-- The call changes no contents. -/
structure Exchange.Idle (exchange : Exchange) : Prop where
  next : ∀ m : Contents, m.next exchange = m
  stored : ∀ x, exchange.stored? x = none
  address : ∀ a, exchange.answer ≠ .address a

/-- What a call does to the memory. -/
inductive Effect (t : Target) : Exchange → Target → Prop where
  | store {exchange : Exchange} {a : UInt32} {bytes : Bytes} {t' : Target}
      (stored : exchange = ⟨.use (.write a bytes), .done⟩ ∨ exchange = ⟨.use (.poke a bytes), .done⟩)
      (shape : t.SameShape t') (regions : pokeIn t.regions a.toNat bytes = some t'.regions) : Effect t exchange t'
  | lend (size : Nat) :
      Effect t ⟨.use (.allocate size), .address (.ofNat t.nextBlock)⟩ (t.lend size (span size))
  | release {a : UInt32} (allocated : t.isAllocated a = true) :
      Effect t ⟨.use (.free a), .done⟩ { t with blocks := t.blocks.eraseP (·.base == a.toNat) }
  | idle {exchange : Exchange} {t' : Target} (idle : exchange.Idle) (mapped : t'.mapped = t.mapped)
      (blocks : t'.blocks = t.blocks) (nextBlock : t'.nextBlock = t.nextBlock) : Effect t exchange t'

variable {t t' : Target} {exchange : Exchange} {a : UInt32} {bytes : Bytes} {size : Nat}

theorem Exchange.idle_failed (call : Call) : Exchange.Idle ⟨call, .failed⟩ := by
  refine ⟨fun m => ?_, fun x => ?_, nofun⟩
  · rcases call with _ | _ | one
    · rfl
    · rfl
    · cases one <;> rfl
  · rcases call with _ | _ | one
    · rfl
    · rfl
    · cases one <;> rfl

private theorem Effect.refl (hidle : exchange.Idle) : t.Effect exchange t := .idle hidle rfl rfl rfl

private theorem effect_write (t : Target) (a : UInt32) (bytes : Bytes) :
    t.Effect ⟨.use (.write a bytes), t.answer (.use (.write a bytes))⟩ (t.write a bytes).2 := by
  obtain ⟨hshape, hregions⟩ := t.write_spec a bytes
  rw [answer]
  cases hresult : (t.write a bytes).1 with
  | error failure =>
    rw [hresult] at hregions
    -- the regions are the same in all, and so many of them are mapped as before
    have hlength : (t.write a bytes).2.mapped.length = t.mapped.length := by
      have := congrArg List.length hshape.mapped
      rwa [List.length_map, List.length_map] at this
    obtain ⟨hmapped, hblocks⟩ := List.append_inj hregions hlength
    exact .idle (Exchange.idle_failed _) hmapped hblocks hshape.nextBlock
  | ok _ =>
    rw [hresult] at hregions
    exact .store (.inl rfl) hshape hregions

private theorem effect_poke (t : Target) (a : UInt32) (bytes : Bytes) :
    t.Effect ⟨.use (.poke a bytes), t.answer (.use (.poke a bytes))⟩ ((t.poke? a bytes).getD t) := by
  rw [answer]
  cases hpoke : t.poke? a bytes with
  | none => exact .refl (Exchange.idle_failed _)
  | some t' =>
    obtain ⟨hshape, hregions⟩ := pokeIn_of_poke? hpoke
    exact .store (.inr rfl) hshape hregions

private theorem effect_allocate (t : Target) (size : Nat) :
    t.Effect ⟨.use (.allocate size), t.answer (.use (.allocate size))⟩ (t.allocate size).2 := by
  rw [answer]
  unfold Target.allocate
  split
  · exact .refl (Exchange.idle_failed _)
  · exact .lend size

private theorem effect_free (t : Target) (a : UInt32) :
    t.Effect ⟨.use (.free a), t.answer (.use (.free a))⟩ (t.free a).2 := by
  rw [answer]
  unfold Target.free
  split
  · next hallocated => exact .release hallocated
  · exact .refl (Exchange.idle_failed _)

theorem effect (t : Target) (call : Call) : t.Effect ⟨call, t.answer call⟩ (t.after call) := by
  cases call with
  | read a n =>
    have haddress : ∀ base, t.answer (.read a n) ≠ .address base := by
      rw [answer]
      cases t.read a n <;> exact nofun
    exact .refl ⟨fun _ => rfl, fun _ => rfl, haddress⟩
  | peek a n =>
    have haddress : ∀ base, t.answer (.peek a n) ≠ .address base := by
      rw [answer]
      cases t.peek? a n <;> exact nofun
    exact .refl ⟨fun _ => rfl, fun _ => rfl, haddress⟩
  | use one =>
    cases one with
    | write a bytes => exact t.effect_write a bytes
    | allocate size => exact t.effect_allocate size
    | free a => exact t.effect_free a
    | poke a bytes => exact t.effect_poke a bytes
    | kill => exact .idle ⟨fun _ => rfl, fun _ => rfl, nofun⟩ rfl rfl rfl
    | refuseReads refuse => exact .idle ⟨fun _ => rfl, fun _ => rfl, nofun⟩ rfl rfl rfl
    | refuseWrite n => exact .idle ⟨fun _ => rfl, fun _ => rfl, nofun⟩ rfl rfl rfl

/-! ### Processes without overlaps -/

/-- No two regions overlap, and the blocks lie below the next address, each at its own. -/
structure Separate (t : Target) : Prop where
  apart : t.regions.Pairwise Region.Disjoint
  below : ∀ block ∈ t.blocks, block.base < t.nextBlock ∧ block.base + block.size ≤ t.nextBlock
  bases : (t.blocks.map (·.base)).Nodup

/-- There is room for a new block of the size. -/
structure Room (t : Target) (size : Nat) : Prop where
  small : size < 2 ^ 32
  address : t.nextBlock < 2 ^ 32
  clear : ∀ region ∈ t.mapped, region.Disjoint (.zeros t.nextBlock size)

private theorem SameShape.regions (h : t.SameShape t') :
    t'.regions.map Region.extent = t.regions.map Region.extent := by
  unfold Target.regions
  rw [List.map_append, List.map_append, h.mapped, h.blocks]

theorem Separate.congr (h : t.Separate) (hshape : t.SameShape t') : t'.Separate where
  apart := pairwise_disjoint_congr hshape.regions h.apart
  below := by
    intro block hblock
    obtain ⟨old, hold, hsame⟩ := exists_mem_of_extents hshape.blocks hblock
    obtain ⟨hbase, hsize⟩ := Prod.mk.inj hsame
    rw [← hbase, ← hsize, hshape.nextBlock]
    exact h.below old hold
  bases := by
    rw [hshape.bases]
    exact h.bases

theorem contents_congr (hmapped : t'.mapped = t.mapped) (hblocks : t'.blocks = t.blocks) :
    t'.contents = t.contents := by
  unfold contents regions
  rw [hmapped, hblocks]

theorem Separate.contents_of_poke (h : t.Separate) (hshape : t.SameShape t')
    (hpoke : pokeIn t.regions a.toNat bytes = some t'.regions) : t'.contents = t.contents.store a.toNat bytes :=
  Contents.ext (funext (byteIn_of_pokeIn h.apart hpoke)) (funext (sizeIn_congr hshape.blocks))

section Lending

variable (h : t.Separate) (hroom : t.Room size)
include h hroom

/-- Blocks lie below the new one, and mapped regions apart from it. -/
private theorem Separate.disjoint_new : ∀ region ∈ t.regions, region.Disjoint (.zeros t.nextBlock size) := by
  intro region hregion
  rcases List.mem_append.1 hregion with hmapped | hblock
  · exact hroom.clear region hmapped
  · intro x hx hnew
    have hbelow := (h.below region hblock).2
    have hto := hx.2
    have hfrom : t.nextBlock ≤ x := hnew.1
    omega

theorem Separate.lend : (t.lend size (span size)).Separate where
  apart := by
    have hregions : (t.lend size (span size)).regions = t.regions ++ [.zeros t.nextBlock size] :=
      (List.append_assoc ..).symm
    rw [hregions, List.pairwise_append]
    refine ⟨h.apart, List.pairwise_singleton .., fun region hregion new hnew => ?_⟩
    rw [List.mem_singleton.1 hnew]
    exact h.disjoint_new hroom region hregion
  below := by
    intro block hblock
    have hspan := le_span hroom.small
    have hpos := span_pos size
    rcases List.mem_append.1 hblock with hold | hnew
    · have hbelow := h.below block hold
      simp only [Target.lend]
      omega
    · rw [List.mem_singleton.1 hnew]
      simp only [Target.lend, Region.zeros]
      omega
  bases := by
    have hbases : (t.lend size (span size)).blocks.map (·.base) = t.blocks.map (·.base) ++ [t.nextBlock] :=
      List.map_append
    rw [hbases]
    have hnew : [t.nextBlock].Nodup := List.nodup_cons.2 ⟨List.not_mem_nil, List.nodup_nil⟩
    refine List.nodup_append.2 ⟨h.bases, hnew, fun base hbase new hnew => ?_⟩
    obtain ⟨block, hblock, rfl⟩ := List.mem_map.1 hbase
    rw [List.mem_singleton.1 hnew]
    exact Nat.ne_of_lt (h.below block hblock).1

theorem Separate.contents_lend : (t.lend size (span size)).contents = t.contents.lend t.nextBlock size := by
  refine Contents.ext (funext fun x => ?_) (funext fun b => ?_)
  · have hregions : (t.lend size (span size)).regions = t.regions ++ [.zeros t.nextBlock size] :=
      (List.append_assoc ..).symm
    change byteIn _ x = if t.nextBlock ≤ x ∧ x < t.nextBlock + size then some 0 else byteIn t.regions x
    rw [hregions, byteIn_append]
    split
    · next hx =>
      have hold : byteIn t.regions x = none :=
        byteIn_eq_none_iff.2 fun region hregion hhas => h.disjoint_new hroom region hregion x hhas hx
      have hcovers : (Region.zeros t.nextBlock size).covers x 1 = true := covers_one_iff.2 hx
      rw [hold, Option.none_or, byteIn_cons, if_pos hcovers]
      rfl
    · next hx =>
      have hnew : byteIn [.zeros t.nextBlock size] x = none := byteIn_eq_none_iff.2 fun region hregion => by
        rw [List.mem_singleton.1 hregion]
        exact hx
      rw [hnew, Option.or_none]
  · exact sizeIn_concat (fun block hblock => Nat.ne_of_lt (h.below block hblock).1) b

end Lending

section Releasing

variable (h : t.Separate) (hallocated : t.isAllocated a = true)
include h

theorem Separate.release : Separate { t with blocks := t.blocks.eraseP (·.base == a.toNat) } where
  apart := h.apart.sublist (List.Sublist.append_left List.eraseP_sublist _)
  below := fun block hblock => h.below block (List.mem_of_mem_eraseP hblock)
  bases := h.bases.sublist (List.eraseP_sublist.map _)

include hallocated

theorem Separate.contents_release : contents { t with blocks := t.blocks.eraseP (·.base == a.toNat) } =
    t.contents.release a.toNat := by
  have hblock : ∃ block, t.blocks.find? (·.base == a.toNat) = some block :=
    Option.isSome_iff_exists.1 (List.find?_isSome.2 (List.any_eq_true.1 hallocated))
  obtain ⟨block, hfind⟩ := hblock
  have hbase : block.base = a.toNat := by simpa using List.find?_some hfind
  have hsize : t.contents.block a.toNat = some block.size := congrArg (Option.map Region.size) hfind
  obtain ⟨-, hblocks, hmapped⟩ := List.pairwise_append.1 h.apart
  refine Contents.ext (funext fun x => ?_) (funext fun b => sizeIn_eraseP h.bases a.toNat b)
  change byteIn (t.mapped ++ t.blocks.eraseP (·.base == a.toNat)) x = ite (a.toNat ≤ x ∧
    x < a.toNat + (t.contents.block a.toNat).getD 0) none (byteIn (t.mapped ++ t.blocks) x)
  rw [byteIn_append, byteIn_append, byteIn_eraseP hblocks hfind, hsize, Option.getD_some, hbase]
  split
  · next hx =>
    rw [← hbase] at hx
    have hout : byteIn t.mapped x = none := byteIn_eq_none_iff.2 fun region hregion hhas =>
      hmapped region hregion block (List.mem_of_find?_eq_some hfind) x hhas hx
    rw [hout]
    rfl
  · rfl

end Releasing

end Target

end LoadRemover.InMemory
