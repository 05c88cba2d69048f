import LoadRemover.Proofs.Listing
import LoadRemover.Proofs.Merging

/-!
# The block is tiled by its pieces

A head block may be built for any list of sites, with any code at them. Wherever it is moved, it is the flag, then the
copies and then the wrappers, in the order of the sites, each where the layouts say and with nothing in between
(`Head.Tiled`, `Head.tiled_of_moves`). A copy is the code of the site, moved to where it lies, and a jump to what
follows this code in the site. A wrapper, read as instructions, calls the copy of its own site and no other.

Each piece is added to a part of the block at the same address, and its label is the size of this part. So what a piece
means where it is added is what it means in the finished block (`Code.exists_pieces`).
-/

namespace LoadRemover

open X86

/-! ### Listings of instructions that were added -/

/-- Code that is a part of other code can be listed for itself. -/
private theorem X86.Lists.unshift {base : UInt32} {n start offset : Nat} {bytes : Bytes}
    {lines : List (Nat × X86.Operation)} (h : X86.Lists base start bytes lines) (hstart : start = n + offset) :
    X86.Lists (base + UInt32.ofNat n) offset bytes (lines.map fun line => (line.1 - n, line.2)) := by
  induction h generalizing offset with
  | nil start => exact .nil offset
  | @cons start bytes rest operation lines head tail ih =>
    subst hstart
    have hrest := ih (Nat.add_assoc n offset bytes.length)
    have hnext : base + UInt32.ofNat (n + offset + bytes.length) =
        base + UInt32.ofNat n + UInt32.ofNat (offset + bytes.length) := by
      rw [UInt32.add_assoc, ← UInt32.ofNat_add, Nat.add_assoc]
    rw [List.map_cons, hnext, Nat.add_sub_cancel_left]
    exact .cons head hrest

/-- The instructions of code that lies at `base`, with addresses in place of distances, if its bytes are instructions
and nothing else. -/
def X86.instructions? (base : UInt32) (bytes : Bytes) : Option (List X86.Operation) :=
  (listing? base bytes).map (·.map (·.2))

namespace Code

/-- What was added is read at its own address. -/
private theorem instructions?_at (code : Code) {bytes : Bytes} {lines : List (Nat × X86.Operation)}
    (h : X86.Lists code.base code.size bytes lines) :
    instructions? code.endAddress bytes = some (lines.map (·.2)) := by
  have hlists := h.unshift (Nat.add_zero code.size).symm
  rw [instructions?, endAddress, address, hlists.listing?, Option.map_some, List.map_map]
  rfl

private theorem lists_emitAll (code : Code) (instructions : List Instruction) :
    ∃ bytes, (code.emitAll instructions).bytes = code.bytes ++ bytes ∧ X86.Lists code.base code.size bytes
      ((placedAll 0 code (instructions.map .emit)).flatMap (·.lines code.base)) := by
  induction instructions generalizing code with
  | nil => exact ⟨[], (List.append_nil _).symm, .nil _⟩
  | cons instruction rest ih =>
    obtain ⟨bytes, hbytes, hlists⟩ := ih (code.emit instruction)
    refine ⟨(instruction.encode code).bytes ++ bytes, ?_, ?_⟩
    · rw [← List.append_assoc]
      exact hbytes
    · have hfirst := instruction.lists_encode code
      have hsize : (code.emit instruction).size = code.size + (instruction.encode code).bytes.length := size_append ..
      rw [hsize] at hlists
      rw [List.map_cons, placedAll, List.flatMap_append, Step.placed, Nat.zero_add, List.flatMap_singleton]
      exact hfirst.append hlists

/-! ### Pieces -/

/-- The pieces follow one another from `start` on, each beginning at its label. -/
def Tiles : Nat → List (Nat × Bytes) → Prop
  | _, [] => True
  | start, (label, piece) :: rest => label = start ∧ Tiles (start + piece.length) rest

private theorem tiles_append {start : Nat} {pieces more : List (Nat × Bytes)} :
    Tiles start (pieces ++ more) ↔
      Tiles start pieces ∧ Tiles (start + (pieces.flatMap (·.2)).length) more := by
  induction pieces generalizing start with
  | nil => simp [Tiles]
  | cons first rest ih =>
    obtain ⟨label, piece⟩ := first
    simp only [List.cons_append, Tiles, ih, List.flatMap_cons, List.length_append, Nat.add_assoc, and_assoc]

private theorem Tiles.within {start : Nat} {pieces : List (Nat × Bytes)} (h : Tiles start pieces) :
    ∀ piece ∈ pieces, start ≤ piece.1 ∧ piece.1 + piece.2.length ≤ start + (pieces.flatMap (·.2)).length := by
  induction pieces generalizing start with
  | nil =>
    intro piece hpiece
    simp at hpiece
  | cons first rest ih =>
    obtain ⟨label, bytes⟩ := first
    obtain ⟨rfl, hrest⟩ := h
    intro piece hpiece
    simp only [List.flatMap_cons, List.length_append]
    rcases List.mem_cons.1 hpiece with rfl | hpiece
    · simp only
      omega
    · have := ih hrest piece hpiece
      omega

/-- No two pieces that are not empty begin at the same label. -/
private theorem Tiles.pairwise {start : Nat} {pieces : List (Nat × Bytes)} (h : Tiles start pieces)
    (hpos : ∀ piece ∈ pieces, 0 < piece.2.length) : pieces.Pairwise fun x y => x.1 < y.1 := by
  induction pieces generalizing start with
  | nil => exact .nil
  | cons first rest ih =>
    obtain ⟨label, bytes⟩ := first
    obtain ⟨rfl, hrest⟩ := h
    have hfirst := hpos _ (List.mem_cons_self ..)
    constructor
    · intro piece hpiece
      have := (hrest.within piece hpiece).1
      simp only at hfirst ⊢
      omega
    · exact ih hrest fun piece hpiece => hpos piece (List.mem_cons_of_mem _ hpiece)

/-- The piece that is added for an item, at its label, is what the item adds to some part of the code at the same
address. -/
def PieceAt {α : Type} (add : Code → α → Code) (base : UInt32) (item : α) (piece : Nat × Bytes) : Prop :=
  ∃ part : Code, part.base = base ∧ part.size = piece.1 ∧ (add part item).bytes = part.bytes ++ piece.2

/-- The pieces that are added for items tile what is added. -/
private theorem exists_pieces {α : Type} {add : Code → α → Code}
    (hadd : ∀ (code : Code) item, code.Continues (add code item)) (code : Code) (items : List α) :
    ∃ pieces : List (Nat × Bytes), (addEach add code items).1.bytes = code.bytes ++ pieces.flatMap (·.2) ∧
      (addEach add code items).2 = pieces.map (·.1) ∧ Tiles code.size pieces ∧
      List.Forall₂ (PieceAt add code.base) items pieces := by
  induction items generalizing code with
  | nil => exact ⟨[], (List.append_nil _).symm, rfl, trivial, .nil⟩
  | cons item rest ih =>
    obtain ⟨pieces, hbytes, hlabels, htiles, hpieces⟩ := ih (add code item)
    obtain ⟨added, hadded⟩ := (hadd code item).bytes
    have hsize : (add code item).size = code.size + added.length := by
      rw [size, ← hadded, List.length_append]
      rfl
    rw [hsize] at htiles
    rw [(hadd code item).base] at hpieces
    refine ⟨(code.size, added) :: pieces, ?_, ?_, ⟨rfl, htiles⟩, .cons ⟨code, rfl, rfl, hadded.symm⟩ hpieces⟩
    · rw [List.flatMap_cons, ← List.append_assoc, hadded]
      exact hbytes
    · rw [List.map_cons, ← hlabels]
      rfl

end Code

namespace Head

open Code

variable {snapshots : List Snapshot}

/-! ### What a block has for its sites -/

/-- What a block has for one of its sites. -/
structure Part where
  snapshot : Snapshot
  layout : SiteLayout
  copy : Bytes
  wrapper : Bytes

/-- What a wrapper does for a site: it raises the flag, pushes the arguments once more, calls the copy, leaves the end
value of the site in the flag and returns, dropping the arguments. -/
def wrapping (flag copy : UInt32) (site : Site) : List X86.Operation :=
  .storeByte flag Flag.busy ::
    List.replicate site.stackArgs.toNat (.pushStack (UInt32.ofNat (site.stackArgs.toNat * 4))) ++
    [.call copy, .storeByte flag site.endValue, .ret (UInt16.ofNat (4 * site.stackArgs.toNat))]

/-- The pieces of a part do for its site what they are there for. -/
structure Part.Serves (part : Part) (head : Head) : Prop where
  site : part.layout.site = part.snapshot.site
  /-- The site's own code as it is where the copy lies, and a long jump to what follows it in the site. -/
  copy : ∃ jump, part.copy = (part.snapshot.code.moveTo (head.code.address part.layout.copy)).bytes ++ jump ∧
    jump.head? = some 0xE9 ∧
    instructions? (head.code.address part.layout.copy + UInt32.ofNat part.snapshot.code.size) jump =
      some [.jump part.snapshot.code.endAddress]
  /-- The address of the wrapper is that of its first byte. -/
  start : head.wrapperAddress part.layout = head.code.base + UInt32.ofNat part.layout.wrapper
  /-- The wrapper raises the flag, calls the copy with the arguments of the site, leaves the end value of the site in
  the flag and returns without the arguments. -/
  wrapper : instructions? (head.wrapperAddress part.layout) part.wrapper =
    some (wrapping head.flagAddress (head.code.address part.layout.copy) part.snapshot.site)

/-- The block is the flag and the pieces of the parts, one part for each snapshot. -/
structure Tiled (head : Head) (snapshots : List Snapshot) (parts : List Part) : Prop where
  snapshots : parts.map (·.snapshot) = snapshots
  layouts : parts.map (·.layout) = head.sites
  bytes : head.code.bytes = Flag.idle :: (parts.flatMap (·.copy) ++ parts.flatMap (·.wrapper))
  tiles : Tiles 1 (parts.map (fun part => (part.layout.copy, part.copy)) ++
    parts.map fun part => (part.layout.wrapper, part.wrapper))
  flag : head.flagAddress = head.code.base
  serves : ∀ part ∈ parts, part.Serves head
  /-- A call of a copy calls no other one. -/
  apart : parts.Pairwise fun x y => head.code.address x.layout.copy ≠ head.code.address y.layout.copy

/-! ### Single pieces -/

/-- A copy is the code of the site and a jump. -/
private theorem exists_jump_of_addCopy {base : UInt32} {snapshot : Snapshot} {piece : Nat × Bytes}
    (h : PieceAt (fun code (s : Snapshot) => code.addCopy s.code) base snapshot piece) (hfit : snapshot.code.Fit) :
    ∃ jump, piece.2 = (snapshot.code.moveTo (base + UInt32.ofNat piece.1)).bytes ++ jump ∧
      jump.head? = some 0xE9 ∧
      instructions? (base + UInt32.ofNat piece.1 + UInt32.ofNat snapshot.code.size) jump =
        some [.jump snapshot.code.endAddress] := by
  obtain ⟨part, rfl, hlabel, hbytes⟩ := h
  have hadded : (part.addCopy snapshot.code).bytes = part.bytes ++ ((snapshot.code.moveTo part.endAddress).bytes ++
      ((Instruction.jumpAddress snapshot.code.endAddress).encode (part.merge snapshot.code)).bytes) := by
    rw [← List.append_assoc]
    rfl
  have hstart : part.base + UInt32.ofNat piece.1 = part.endAddress := by
    rw [← hlabel]
    rfl
  have hend : (part.merge snapshot.code).endAddress = part.endAddress + UInt32.ofNat snapshot.code.size := by
    rw [endAddress_merge hfit, endAddress, address, size_moveTo hfit, moveTo_base]
  refine ⟨((Instruction.jumpAddress snapshot.code.endAddress).encode (part.merge snapshot.code)).bytes, ?_, rfl, ?_⟩
  · rw [hstart]
    exact List.append_cancel_left (hbytes.symm.trans hadded)
  · rw [hstart, ← hend]
    exact instructions?_at _ (Instruction.lists_encode _ (part.merge snapshot.code))

/-- A wrapper does what it is there for. -/
private theorem instructions?_of_addTarget {base : UInt32} {target : Site × Nat} {piece : Nat × Bytes}
    (h : PieceAt addTarget base target piece) :
    instructions? (base + UInt32.ofNat piece.1) piece.2 =
      some (wrapping (base + UInt32.ofNat flagLabel) (base + UInt32.ofNat target.2) target.1) := by
  obtain ⟨site, copy⟩ := target
  obtain ⟨part, rfl, hlabel, hbytes⟩ := h
  obtain ⟨bytes, hadded, hlists⟩ := part.lists_emitAll [
    .storeByteLabel flagLabel Flag.busy,
    .callLabel copy site.stackArgs,
    .storeByteLabel flagLabel site.endValue,
    .ret (site.stackArgs.toUInt16 * 4)]
  have hpiece : piece.2 = bytes := List.append_cancel_left (hbytes.symm.trans hadded)
  have hread := part.instructions?_at hlists
  have hpop : site.stackArgs.toUInt16 * 4 = UInt16.ofNat (4 * site.stackArgs.toNat) := by cases site <;> decide
  rw [endAddress, address, hlabel] at hread
  rw [hpiece, hread]
  simp [placedAll, Step.placed, Placed.lines, Placed.callLines, wrapping, hpop, Function.comp_def]

/-! ### All pieces -/

private theorem exists_parts (head : Head) {snapshots : List Snapshot} {copies wrappers : List (Nat × Bytes)}
    (hfit : ∀ s ∈ snapshots, s.code.Fit)
    (hcopies : List.Forall₂ (PieceAt (fun code (s : Snapshot) => code.addCopy s.code) head.code.base) snapshots copies)
    (hwrappers : List.Forall₂ (PieceAt addTarget head.code.base)
      ((snapshots.map (·.site)).zip (copies.map (·.1))) wrappers) :
    ∃ parts : List Part, parts.map (·.snapshot) = snapshots ∧
      parts.map (·.layout) = (((snapshots.map (·.site)).zip (copies.map (·.1))).zip (wrappers.map (·.1))).map
        (fun (target, wrapper) => ⟨target.1, target.2, wrapper⟩) ∧
      parts.map (fun part => (part.layout.copy, part.copy)) = copies ∧
      parts.map (fun part => (part.layout.wrapper, part.wrapper)) = wrappers ∧
      ∀ part ∈ parts, part.Serves head := by
  induction hcopies generalizing wrappers with
  | nil =>
    cases hwrappers
    exact ⟨[], rfl, rfl, rfl, rfl, nofun⟩
  | @cons snapshot copy snapshots copies hcopy _ ih =>
    cases hwrappers with
    | @cons _ wrapper _ wrappers hwrapper hwrappers =>
    obtain ⟨parts, hsnapshots, hlayouts, hcopies, hwrappers, hserves⟩ :=
      ih (fun s hs => hfit s (List.mem_cons_of_mem _ hs)) hwrappers
    refine ⟨⟨snapshot, ⟨snapshot.site, copy.1, wrapper.1⟩, copy.2, wrapper.2⟩ :: parts, ?_, ?_, ?_, ?_, ?_⟩
    · rw [List.map_cons, hsnapshots]
    · rw [List.map_cons, hlayouts]
      rfl
    · rw [List.map_cons, hcopies]
    · rw [List.map_cons, hwrappers]
    · intro part hpart
      rcases List.mem_cons.1 hpart with rfl | hpart
      · exact ⟨rfl, exists_jump_of_addCopy hcopy (hfit snapshot (List.mem_cons_self ..)), rfl,
          instructions?_of_addTarget hwrapper⟩
      · exact hserves part hpart

private theorem Part.Serves.copy_pos {part : Part} {head : Head} (h : part.Serves head) : 0 < part.copy.length := by
  obtain ⟨jump, hcopy, hjump, -⟩ := h.copy
  cases jump with
  | nil => simp at hjump
  | cons first rest =>
    rw [hcopy, List.length_append, List.length_cons]
    omega

/-- Copies that begin at different labels begin at different addresses. -/
private theorem pairwise_address {head : Head} {parts : List Part} (hsize : head.code.size ≤ 2 ^ 32)
    (hbytes : head.code.bytes = Flag.idle :: (parts.flatMap (·.copy) ++ parts.flatMap (·.wrapper)))
    (htiles : Tiles 1 (parts.map fun part => (part.layout.copy, part.copy)))
    (hserves : ∀ part ∈ parts, part.Serves head) :
    parts.Pairwise fun x y => head.code.address x.layout.copy ≠ head.code.address y.layout.copy := by
  have hpos : ∀ piece ∈ parts.map (fun part => (part.layout.copy, part.copy)), 0 < piece.2.length := by
    intro piece hpiece
    obtain ⟨part, hpart, rfl⟩ := List.mem_map.1 hpiece
    exact (hserves part hpart).copy_pos
  have hlabel : ∀ part ∈ parts, part.layout.copy < 2 ^ 32 := by
    intro part hpart
    have hpiece := List.mem_map_of_mem (f := fun part : Part => (part.layout.copy, part.copy)) hpart
    have hin := (htiles.within _ hpiece).2
    have hlength := hpos _ hpiece
    rw [Code.size, hbytes, List.length_cons, List.length_append] at hsize
    rw [List.flatMap_map] at hin
    simp only at hin hlength
    omega
  -- labels below the size of the address space are told apart by their addresses
  refine (List.pairwise_map.1 (htiles.pairwise hpos)).imp_of_mem ?_
  intro x y hx hy hlt hsame
  have hx := hlabel x hx
  have hy := hlabel y hy
  have hlabels : UInt32.ofNat x.layout.copy = UInt32.ofNat y.layout.copy := by
    rw [Code.address, Code.address] at hsame
    grind
  have hnumbers := congrArg UInt32.toNat hlabels
  rw [UInt32.toNat_ofNat_of_lt' hx, UInt32.toNat_ofNat_of_lt' hy] at hnumbers
  simp only at hlt
  omega

private theorem exists_tiled_buildAt (hfit : ∀ s ∈ snapshots, s.code.Fit) (base : UInt32)
    (hsize : (buildAt base snapshots).code.size ≤ 2 ^ 32) :
    ∃ parts, (buildAt base snapshots).Tiled snapshots parts := by
  obtain ⟨copies, hcopied, hcopyLabels, hcopyTiles, hcopyPieces⟩ :=
    exists_pieces (fun code (s : Snapshot) => code.continues_addCopy s.code)
      ((Code.emptyAt base).data [Flag.idle]) snapshots
  obtain ⟨wrappers, hwrapped, hwrapperLabels, hwrapperTiles, hwrapperPieces⟩ :=
    exists_pieces continues_addTarget (copied base snapshots).1 (targets base snapshots)
  have hbase : (copied base snapshots).1.base = base :=
    (addEach_pieces (fun code (s : Snapshot) => code.continues_addCopy s.code)
      ((Code.emptyAt base).data [Flag.idle]) snapshots).1.base
  have htargets : targets base snapshots = (snapshots.map (·.site)).zip (copies.map (·.1)) := by
    rw [← hcopyLabels]
    rfl
  rw [hbase, htargets] at hwrapperPieces
  obtain ⟨parts, hsnapshots, hlayouts, hcopies, hwrappers, hserves⟩ :=
    exists_parts (buildAt base snapshots) hfit (by rw [buildAt_base]; exact hcopyPieces)
      (by rw [buildAt_base]; exact hwrapperPieces)
  have hcopyBytes : copies.flatMap (·.2) = parts.flatMap (·.copy) := by
    rw [← hcopies, List.flatMap_map]
  have hwrapperBytes : wrappers.flatMap (·.2) = parts.flatMap (·.wrapper) := by
    rw [← hwrappers, List.flatMap_map]
  have hlength : (copied base snapshots).1.size = 1 + (copies.flatMap (·.2)).length := by
    rw [Code.size, copied, hcopied, List.length_append]
    rfl
  have hbytes : (buildAt base snapshots).code.bytes =
      Flag.idle :: (parts.flatMap (·.copy) ++ parts.flatMap (·.wrapper)) := by
    rw [← hcopyBytes, ← hwrapperBytes]
    show (addEach addTarget (copied base snapshots).1 (targets base snapshots)).1.bytes = _
    rw [hwrapped, copied, hcopied]
    rfl
  have htiles : Tiles 1 (copies ++ wrappers) := by
    rw [hlength] at hwrapperTiles
    exact tiles_append.2 ⟨hcopyTiles, hwrapperTiles⟩
  rw [← hcopies, ← hwrappers] at htiles
  refine ⟨parts, hsnapshots, ?_, hbytes, htiles, UInt32.add_zero _, hserves, ?_⟩
  · rw [hlayouts, ← hwrapperLabels, ← htargets]
    rfl
  · exact pairwise_address hsize hbytes (tiles_append.1 htiles).1 hserves

/-! ### Placements -/

private theorem fit_build (hfit : ∀ s ∈ snapshots, s.code.Fit) : (build snapshots).code.Fit := by
  have hadd : ∀ code : Code, code.Fit → ∀ target ∈ targets Code.unplaced snapshots, (addTarget code target).Fit :=
    fun _ hcode _ _ => hcode.emitAll _
  exact (Code.moveTo_addEach (targets Code.unplaced snapshots) (copied_moveTo hfit Code.unplaced).1 hadd
    (fun _ hcode _ _ base => Code.moveTo_emitAll hcode _ base) Code.unplaced).1

private theorem moveTo_buildAt (hfit : ∀ s ∈ snapshots, s.code.Fit) (a b : UInt32) :
    (buildAt a snapshots).moveTo b = buildAt b snapshots := by
  rw [← moveTo_build hfit a, ← moveTo_build hfit b, moveTo, moveTo, moveTo, Code.moveTo_moveTo (fit_build hfit)]

/-- However often a block is moved, it is the block assembled for the address at which it lies then. -/
private theorem exists_buildAt (hfit : ∀ s ∈ snapshots, s.code.Fit) (moves : List UInt32) :
    ∃ base, moves.foldl moveTo (build snapshots) = buildAt base snapshots := by
  rw [build_eq]
  generalize Code.unplaced = start
  induction moves generalizing start with
  | nil => exact ⟨start, rfl⟩
  | cons base rest ih =>
    rw [List.foldl_cons, moveTo_buildAt hfit]
    exact ih base

/-- Sites, each with code that was built. -/
def snapshotsOf (sites : List (Site × Recipe)) : List Snapshot := sites.map fun (site, recipe) => ⟨site, recipe.code⟩

/-- **The block is laid out as its layouts say**, for any sites, also for repeated ones, with any code that was built,
and wherever it is moved: the flag, the copies and the wrappers follow one another in the order of the sites and fill
the block. -/
theorem tiled_of_moves (sites : List (Site × Recipe)) (moves : List UInt32)
    (hsize : (build (snapshotsOf sites)).code.size < 2 ^ 32 - 8) :
    ∃ parts, (moves.foldl moveTo (build (snapshotsOf sites))).Tiled (snapshotsOf sites) parts := by
  have hfit : ∀ s ∈ snapshotsOf sites, s.code.Fit := by
    intro s hs
    obtain ⟨⟨site, recipe⟩, -, rfl⟩ := List.mem_map.1 hs
    exact recipe.fit
  obtain ⟨base, hbase⟩ := exists_buildAt hfit moves
  rw [hbase]
  apply exists_tiled_buildAt hfit base
  rw [build_eq, size_buildAt hfit] at hsize
  rw [size_buildAt hfit]
  omega

/-- One site twice, with code that depends on where it lies, and with none. -/
def twiceGame : List (Site × Recipe) := [
  (.game, { base := 0x401000, steps := [.emit (.pushLabel 0), .merge 0 [.emit (.jumpAddress 0x5000), .data [0xC6]],
    .moveTo 0x403B80] }),
  (.frontend, { base := 0x4038E0, steps := [.emit (.callAddress 0x401234 2)] }),
  (.game, { base := 0x403B80, steps := [] })]

/-- The addresses of this block wrap around, and the last copy has nothing but its jump. -/
theorem tiled_of_moves_twice :
    (build (snapshotsOf twiceGame)).code.size < 2 ^ 32 - 8 ∧
      ∃ parts, ([0x1000000, 0xFFFFFFF0].foldl moveTo (build (snapshotsOf twiceGame))).Tiled
          (snapshotsOf twiceGame) parts ∧
        parts.map (fun part => (part.layout.site, part.layout.copy, part.layout.wrapper)) =
          [(.game, 1, 40), (.frontend, 17, 66), (.game, 35, 86)] := by
  have hsize : (build (snapshotsOf twiceGame)).code.size < 2 ^ 32 - 8 := by decide
  obtain ⟨parts, htiled⟩ := tiled_of_moves twiceGame [0x1000000, 0xFFFFFFF0] hsize
  refine ⟨hsize, parts, htiled, ?_⟩
  have hlayouts := congrArg (List.map fun layout => (layout.site, layout.copy, layout.wrapper)) htiled.layouts
  rw [List.map_map] at hlayouts
  refine hlayouts.trans ?_
  decide

end Head

end LoadRemover
