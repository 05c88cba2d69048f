import LoadRemover.Proofs.Decoding
import LoadRemover.Proofs.Moving

/-!
# Listings of assembled code

A listing shows code as the processor reads it from its first byte on: each instruction with its offset, calls and
jumps with the address to which they lead. What a buffer was built from determines its listing
(`Code.listing_performAll`): the instructions as they were added, each at the label that adding it gave, with labels
counted from where the buffer of the instruction has come to lie, and all other operands as they were given.

The invariant is `Code.Listed`: the listing is right wherever the buffer is moved. So one step adds its own lines, and a
buffer that is merged brings those that it would have at the place which it gets.
-/

namespace LoadRemover

namespace X86

/-! ### Listings -/

/-- A call or a jump with the address to which it leads, if the next instruction is at `next`, in place of the
distance. -/
def Operation.resolve (next : UInt32) : Operation → Operation
  | .call distance => .call (next + distance)
  | .jump distance => .jump (next + distance)
  | operation => operation

/-- A sweep of `size` bytes of code at `base`, with addresses in place of distances. -/
def resolveAll (base : UInt32) (size : Nat) : List (Nat × Operation) → List (Nat × Operation)
  | [] => []
  | (offset, operation) :: rest =>
    let next := (rest.head?.map (·.1)).getD size
    (offset, operation.resolve (base + UInt32.ofNat next)) :: resolveAll base size rest

/-- The listing of code that lies at `base`, if its bytes are instructions and nothing else. -/
def listing? (base : UInt32) (bytes : Bytes) : Option (List (Nat × Operation)) :=
  (sweep? bytes).map (resolveAll base bytes.length)

/-- The bytes, which begin at `offset` in code at `base`, are the instructions of these lines. -/
inductive Lists (base : UInt32) : Nat → Bytes → List (Nat × Operation) → Prop where
  | nil (offset : Nat) : Lists base offset [] []
  | cons {offset : Nat} {bytes rest : Bytes} {operation : Operation} {lines : List (Nat × Operation)}
      (head : Encodes bytes operation) (tail : Lists base (offset + bytes.length) rest lines) :
      Lists base offset (bytes ++ rest)
        ((offset, operation.resolve (base + UInt32.ofNat (offset + bytes.length))) :: lines)

namespace Lists

variable {base : UInt32} {offset : Nat} {xs ys : Bytes} {lines more : List (Nat × Operation)}

private theorem single {operation : Operation} (h : Encodes xs operation) (offset : Nat) :
    Lists base offset xs [(offset, operation.resolve (base + UInt32.ofNat (offset + xs.length)))] := by
  have hnil : Lists base (offset + xs.length) [] [] := .nil _
  have := Lists.cons h hnil
  rwa [List.append_nil] at this

theorem append (hx : Lists base offset xs lines) (hy : Lists base (offset + xs.length) ys more) :
    Lists base offset (xs ++ ys) (lines ++ more) := by
  induction hx with
  | nil offset => exact hy
  | cons head tail ih =>
    rw [List.length_append, ← Nat.add_assoc] at hy
    rw [List.append_assoc]
    exact .cons head (ih hy)

/-- Lines do not depend on whether code is taken for itself or as a part of other code. -/
private theorem shift {n : Nat} (h : Lists (base + UInt32.ofNat n) offset xs lines) :
    Lists base (n + offset) xs (lines.map fun line => (n + line.1, line.2)) := by
  induction h with
  | nil offset => exact .nil (n + offset)
  | @cons offset bytes rest operation lines head tail ih =>
    have hnext : base + UInt32.ofNat n + UInt32.ofNat (offset + bytes.length) =
        base + UInt32.ofNat (n + offset + bytes.length) := by
      rw [UInt32.add_assoc, ← UInt32.ofNat_add, Nat.add_assoc]
    rw [← Nat.add_assoc] at ih
    rw [List.map_cons, hnext]
    exact .cons head ih

/-- Copies of one instruction that is no call or jump. -/
private theorem replicate {operation : Operation} (h : Encodes xs operation)
    (hplain : ∀ next, operation.resolve next = operation) (offset n : Nat) :
    Lists base offset (List.replicate n xs).flatten
      ((List.range n).map fun i => (offset + i * xs.length, operation)) := by
  induction n with
  | zero => exact .nil offset
  | succ n ih =>
    have hlength : offset + (List.replicate n xs).flatten.length = offset + n * xs.length := by
      simp
    have hlast : Lists base (offset + n * xs.length) xs [(offset + n * xs.length, operation)] := by
      have := @single base xs operation h (offset + n * xs.length)
      rwa [hplain] at this
    rw [← hlength] at hlast
    have := ih.append hlast
    rw [List.replicate_succ', List.flatten_append, List.flatten_singleton, List.range_succ, List.map_append]
    rwa [hlength] at this

private theorem sweepFrom? (h : Lists base offset xs lines) {steps : Nat} (hsteps : xs.length ≤ steps) :
    ∃ found, X86.sweepFrom? steps offset xs = some found ∧
      (found.head?.map (·.1)).getD (offset + xs.length) = offset ∧
      resolveAll base (offset + xs.length) found = lines := by
  induction h generalizing steps with
  | nil offset => exact ⟨[], by cases steps <;> rfl, rfl, rfl⟩
  | @cons offset bytes rest operation lines head tail ih =>
    have hread := head.2 rest
    rw [List.length_append] at hsteps
    cases bytes with
    | nil => exact absurd head.length_pos (Nat.lt_irrefl 0)
    | cons byte bytes =>
      cases steps with
      | zero => simp at hsteps
      | succ steps =>
        obtain ⟨found, hfound, hnext, hlines⟩ := @ih steps (by simp at hsteps; omega)
        have hdrop : (byte :: (bytes ++ rest)).drop (byte :: bytes).length = rest := by simp
        have hend : offset + ((byte :: bytes) ++ rest).length = offset + (byte :: bytes).length + rest.length := by
          rw [List.length_append, Nat.add_assoc]
        refine ⟨(offset, operation) :: found, ?_, rfl, ?_⟩
        · rw [List.cons_append] at hread ⊢
          simp only [X86.sweepFrom?, hread, Option.bind_eq_bind, Option.bind_some, Option.pure_def, hdrop, hfound]
        · rw [hend, resolveAll, hnext, hlines]

theorem listing? (h : Lists base 0 xs lines) : X86.listing? base xs = some lines := by
  obtain ⟨found, hfound, -, hlines⟩ := h.sweepFrom? (Nat.le_refl _)
  rw [Nat.zero_add] at hlines
  rw [X86.listing?, sweep?, hfound, Option.map_some, hlines]

end Lists

end X86

open X86

/-! ### Instructions in place -/

/-- An instruction in finished code. -/
structure Placed where
  /-- Where the buffer begins to which the instruction was added. -/
  origin : Nat
  /-- Where the instruction begins. -/
  start : Nat
  instruction : Instruction

namespace Placed

def shift (placed : Placed) (n : Nat) : Placed :=
  { placed with origin := n + placed.origin, start := n + placed.start }

/-- The size of the instruction that pushes a copy of one of `args` arguments: the short form reaches 31 of them. -/
def pushSize (args : UInt8) : Nat := if args.toNat < 32 then 4 else 7

/-- The lines of a call of `target` with copies of `args` arguments: a push for each of them, and then the call. -/
def callLines (start : Nat) (target : UInt32) (args : UInt8) : List (Nat × X86.Operation) :=
  ((List.range args.toNat).map fun i => (start + i * pushSize args, .pushStack (UInt32.ofNat (args.toNat * 4)))) ++
    [(start + args.toNat * pushSize args, .call target)]

/-- What a listing for the address `base` shows for an instruction. -/
def lines (base : UInt32) (placed : Placed) : List (Nat × X86.Operation) :=
  let address (label : Nat) := base + UInt32.ofNat (placed.origin + label)
  match placed.instruction with
  | .subImmediate register value _ => [(placed.start, .subtract register value.toUInt32)]
  | .moveRegister target source => [(placed.start, .move target source)]
  | .pushStack displacement _ => [(placed.start, .pushStack displacement.toUInt32)]
  | .pushRegister register => [(placed.start, .pushRegister register)]
  | .pushImmediate value => [(placed.start, .pushWord value)]
  | .pushLabel label => [(placed.start, .pushWord (address label))]
  | .callLabel label args => callLines placed.start (address label) args
  | .callAddress target args => callLines placed.start target args
  | .jumpLabel label _ => [(placed.start, .jump (address label))]
  | .jumpAddress target => [(placed.start, .jump target)]
  | .storeByteAddress address value => [(placed.start, .storeByte address value)]
  | .storeByteLabel label value => [(placed.start, .storeByte (address label) value)]
  | .ret pop => [(placed.start, .ret pop)]

private theorem callLines_shift (n start : Nat) (target : UInt32) (args : UInt8) :
    callLines (n + start) target args = (callLines start target args).map fun line => (n + line.1, line.2) := by
  simp only [callLines, List.map_append, List.map_map, List.map_cons, List.map_nil, Function.comp_def, Nat.add_assoc]

private theorem lines_shift (placed : Placed) (n : Nat) (base : UInt32) :
    (placed.shift n).lines base =
      (placed.lines (base + UInt32.ofNat n)).map fun line => (n + line.1, line.2) := by
  have haddress : ∀ label, base + UInt32.ofNat (n + placed.origin + label) =
      base + UInt32.ofNat n + UInt32.ofNat (placed.origin + label) := by
    intro label
    rw [UInt32.add_assoc, ← UInt32.ofNat_add, Nat.add_assoc]
  obtain ⟨origin, start, instruction⟩ := placed
  simp only [shift] at haddress ⊢
  cases instruction with
  | pushLabel label => simp only [lines, haddress, List.map_cons, List.map_nil]
  | callLabel label args => simp only [lines, haddress, callLines_shift]
  | callAddress target args => simp only [lines, callLines_shift]
  | jumpLabel label wide => simp only [lines, haddress, List.map_cons, List.map_nil]
  | storeByteLabel label value => simp only [lines, haddress, List.map_cons, List.map_nil]
  | _ => rfl

private theorem pushSize_eq (args : UInt8) :
    (Instruction.pushStackBytes (Int32.ofNat (args.toNat * 4)) false).length = pushSize args := by
  have hlt := args.toNat_lt
  have hfits : Instruction.fitsByte (Int32.ofNat (args.toNat * 4)) = decide (args.toNat < 32) := by
    have hvalue : (Int32.ofNat (args.toNat * 4)).toInt = args.toNat * 4 := by
      rw [Int32.toInt_ofNat_of_lt (by omega)]
      rfl
    simp only [Instruction.fitsByte, Int32.le_iff_toInt_le, hvalue]
    rw [Bool.eq_iff_iff]
    simp
    omega
  unfold Instruction.pushStackBytes pushSize
  rw [hfits]
  by_cases h : args.toNat < 32
  · simp only [h, decide_true, Bool.not_false, Bool.and_self, ↓reduceIte, List.length_cons, List.length_nil]
  · simp only [h, decide_false, Bool.and_false, Bool.false_eq_true, ↓reduceIte]
    rfl

end Placed

namespace Instruction

private theorem add_sub_distance (base target n : UInt32) : base + n + (target - base - n) = target := by
  grind

private theorem lists_callBytes (base : UInt32) (start : Nat) (target : UInt32) (args : UInt8) :
    X86.Lists base start (callBytes start (target - base) args) (Placed.callLines start target args) := by
  have hlength : (forwardBytes args).length = args.toNat * Placed.pushSize args := by
    rw [← Placed.pushSize_eq]
    simp [forwardBytes]
  have hpushes : X86.Lists base start (forwardBytes args) ((List.range args.toNat).map fun i =>
      (start + i * Placed.pushSize args, .pushStack (UInt32.ofNat (args.toNat * 4)))) := by
    rw [← Placed.pushSize_eq]
    exact .replicate (X86.Operation.encodes_pushStack _ false) (fun _ => rfl) start args.toNat
  have hcall : X86.Lists base (start + (forwardBytes args).length)
      (0xE8 :: Bytes.littleEndian32 (target - base - UInt32.ofNat (start + (forwardBytes args).length + 5)))
      [(start + args.toNat * Placed.pushSize args, .call target)] := by
    have henc := X86.Operation.encodes_call (target - base - UInt32.ofNat (start + (forwardBytes args).length + 5))
    have hone := @Lists.single base _ _ henc (start + (forwardBytes args).length)
    rw [← hlength]
    simpa only [X86.Operation.resolve, List.length_cons, Bytes.length_littleEndian32, add_sub_distance] using hone
  exact hpushes.append hcall

private theorem lists_jumpBytes (base : UInt32) (start : Nat) (target : UInt32) (wide : Bool) :
    X86.Lists base start (jumpBytes start (target - base) wide) [(start, .jump target)] := by
  have hjump := (reads_jumpBytes start (target - base) wide).encodes
  have hone := @Lists.single base _ _ hjump start
  simpa only [X86.Operation.resolve, add_sub_distance] using hone

/-- An instruction at the end of code that begins with its own buffer. -/
theorem lists_encode (instruction : Instruction) (code : Code) :
    X86.Lists code.base code.size (instruction.encode code).bytes
      (Placed.lines code.base ⟨0, code.size, instruction⟩) := by
  have hlabel : ∀ label, UInt32.ofNat label = code.base + UInt32.ofNat (0 + label) - code.base := by
    intro label
    rw [Nat.zero_add]
    grind
  have haddress : ∀ label, code.base + UInt32.ofNat (0 + label) = code.address label := by
    intro label
    rw [Nat.zero_add]
    rfl
  have hreads := instruction.reads_encode code
  cases instruction with
  | callLabel label args =>
    simp only [encode, Placed.lines]
    rw [hlabel label]
    exact lists_callBytes ..
  | callAddress target args => exact lists_callBytes ..
  | jumpLabel label wide =>
    simp only [encode, Placed.lines]
    rw [hlabel label]
    exact lists_jumpBytes ..
  | jumpAddress target => exact lists_jumpBytes code.base code.size target true
  | pushLabel label =>
    simp only [Placed.lines, haddress]
    exact Lists.single hreads.encodes code.size
  | storeByteLabel label value =>
    simp only [Placed.lines, haddress]
    exact Lists.single hreads.encodes code.size
  | _ => exact Lists.single hreads.encodes code.size

end Instruction

namespace Code

/-! ### What steps add -/

mutual

/-- Whether a step adds instructions only. -/
def Step.isCode : Step → Bool
  | .data _ => false
  | .emit _ => true
  | .merge _ steps => areCode steps
  | .moveTo _ => true

def areCode : List Step → Bool
  | [] => true
  | step :: rest => step.isCode && areCode rest

end

mutual

/-- The instructions that a step adds at its label, in a buffer that begins at `origin`. -/
def Step.placed (origin label : Nat) : Step → List Placed
  | .data _ => []
  | .emit instruction => [⟨origin, origin + label, instruction⟩]
  | .merge base steps => placedAll (origin + label) (emptyAt base) steps
  | .moveTo _ => []

/-- The instructions that steps add to a buffer which begins at `origin`. -/
def placedAll (origin : Nat) (code : Code) : List Step → List Placed
  | [] => []
  | step :: rest => step.placed origin code.size ++ placedAll origin (code.perform step) rest

end

/-- Each step that adds something adds it at the label that it has given. -/
private theorem placedAll_eq_labels (origin : Nat) (code : Code) (steps : List Step) :
    placedAll origin code steps =
      ((code.labels steps).zip (steps.filter (·.adds))).flatMap fun (label, step) => step.placed origin label := by
  induction steps generalizing code with
  | nil => rfl
  | cons step rest ih =>
    rw [placedAll, labels, ih]
    cases step with
    | moveTo base => simp [Step.adds, Step.placed]
    | data bytes => simp [Step.adds]
    | emit instruction => simp [Step.adds]
    | merge base steps => simp [Step.adds]

mutual

theorem Step.placed_shift (n origin label : Nat) : ∀ step : Step,
    step.placed (n + origin) label = (step.placed origin label).map (·.shift n)
  | .data _ => rfl
  | .emit _ => by simp only [Step.placed, Placed.shift, List.map_cons, List.map_nil, Nat.add_assoc]
  | .merge base steps => by
    simp only [Step.placed, Nat.add_assoc]
    exact placedAll_shift n (origin + label) (emptyAt base) steps
  | .moveTo _ => rfl

private theorem placedAll_shift (n origin : Nat) (code : Code) : ∀ steps : List Step,
    placedAll (n + origin) code steps = (placedAll origin code steps).map (·.shift n)
  | [] => rfl
  | step :: rest => by
    rw [placedAll, placedAll, List.map_append, step.placed_shift, placedAll_shift n origin (code.perform step) rest]

end

/-! ### What the code reads as -/

/-- Wherever it is moved, the code is a listing of these instructions. -/
def Listed (code : Code) (placed : List Placed) : Prop :=
  ∀ base, X86.Lists base 0 (code.moveTo base).bytes (placed.flatMap (·.lines base))

variable {code child : Code} {placed more : List Placed}

private theorem Listed.append {fragment : Fragment} (h : code.Listed placed) (hcode : code.Fit)
    (hfragment : fragment.Fit)
    (hmore : ∀ base, X86.Lists base code.size (fragment.moved (base - code.base)).bytes (more.flatMap (·.lines base))) :
    (code.append fragment).Listed (placed ++ more) := by
  intro base
  have hbytes : ((code.append fragment).moveTo base).bytes =
      (code.moveTo base).bytes ++ (fragment.moved (base - code.base)).bytes := by
    rw [moveTo_append hcode hfragment, Code.append]
  have hsize : (code.moveTo base).bytes.length = code.size := size_moveTo hcode base
  rw [hbytes, List.flatMap_append]
  refine (h base).append ?_
  rw [hsize, Nat.zero_add]
  exact hmore base

private theorem Listed.emit (h : code.Listed placed) (hcode : code.Fit) (instruction : Instruction) :
    (code.emit instruction).Listed (placed ++ [⟨0, code.size, instruction⟩]) := by
  refine h.append hcode (instruction.fit_encode code) fun base => ?_
  have hsize : (code.moveTo base).size = code.size := size_moveTo hcode base
  have hmoved := @Instruction.moved_encode instruction code (code.moveTo base) hsize
  rw [moveTo_base] at hmoved
  have := instruction.lists_encode (code.moveTo base)
  rw [hsize, moveTo_base] at this
  rw [hmoved, List.flatMap_singleton]
  exact this

private theorem Listed.moveTo (h : code.Listed placed) (hcode : code.Fit) (address : UInt32) :
    (code.moveTo address).Listed placed := by
  intro base
  rw [moveTo_moveTo hcode]
  exact h base

/-- A buffer that is merged reads as it would where it comes to lie. -/
private theorem Listed.merge (h : code.Listed placed) (hcode : code.Fit) (hchild : child.Listed more)
    (hfit : child.Fit) :
    (code.merge child).Listed (placed ++ more.map (·.shift code.size)) := by
  intro base
  have hbytes : ((code.merge child).moveTo base).bytes =
      (code.moveTo base).bytes ++ (child.moveTo (base + UInt32.ofNat code.size)).bytes := by
    have hend : (code.moveTo base).endAddress = base + UInt32.ofNat code.size := by
      rw [endAddress, address, size_moveTo hcode, moveTo_base]
    rw [moveTo_merge hcode hfit, ← hend]
    rfl
  have hsize : (code.moveTo base).bytes.length = code.size := size_moveTo hcode base
  have hlines : (more.map (·.shift code.size)).flatMap (·.lines base) =
      (more.flatMap (·.lines (base + UInt32.ofNat code.size))).map fun line => (code.size + line.1, line.2) := by
    rw [List.flatMap_map, List.map_flatMap]
    simp only [Placed.lines_shift]
  rw [hbytes, List.flatMap_append, hlines]
  refine (h base).append ?_
  rw [hsize, Nat.zero_add]
  exact (hchild _).shift

private theorem listed_emptyAt (base : UInt32) : (emptyAt base).Listed [] := fun _ => .nil 0

mutual

theorem Listed.perform {code : Code} {placed : List Placed} (h : code.Listed placed) (hcode : code.Fit) :
    ∀ step : Step, step.isCode = true → (code.perform step).Listed (placed ++ step.placed 0 code.size)
  | .data _, hstep => by simp [Step.isCode] at hstep
  | .emit instruction, _ => by
    simp only [Step.placed, Nat.zero_add]
    exact h.emit hcode instruction
  | .merge base steps, hstep => by
    have hchild := (listed_emptyAt base).performAll (fit_emptyAt base) steps hstep
    have hshift := placedAll_shift code.size 0 (emptyAt base) steps
    simp only [Step.placed, Nat.zero_add, Nat.add_zero] at hshift ⊢
    rw [hshift]
    exact h.merge hcode hchild ((fit_emptyAt base).performAll steps)
  | .moveTo base, _ => by
    rw [Step.placed, List.append_nil]
    exact h.moveTo hcode base

private theorem Listed.performAll {code : Code} {placed : List Placed} (h : code.Listed placed) (hcode : code.Fit) :
    ∀ steps : List Step, areCode steps = true → (code.performAll steps).Listed (placed ++ placedAll 0 code steps)
  | [], _ => by rwa [placedAll, List.append_nil]
  | step :: rest, hsteps => by
    obtain ⟨hstep, hrest⟩ := (Bool.and_eq_true _ _).mp hsteps
    have := (h.perform hcode step hstep).performAll (hcode.perform step) rest hrest
    rwa [List.append_assoc] at this

end

/-- **The assembler means what it says.** Code built from instructions, with moves and merged buffers among them,
reads as these instructions from its first byte to its last, for the address at which it has come to lie. Each of them
begins at the label that the step has given which added it, also in a buffer that was merged. -/
theorem listing_performAll (base : UInt32) (steps : List Step) (hsteps : areCode steps = true) :
    listing? (destination base steps) ((emptyAt base).performAll steps).bytes =
        some ((placedAll 0 (emptyAt base) steps).flatMap (·.lines (destination base steps))) ∧
      ∀ origin base' steps', placedAll origin (emptyAt base') steps' =
        (((emptyAt base').labels steps').zip (steps'.filter (·.adds))).flatMap
          fun (label, step) => step.placed origin label := by
  refine ⟨?_, fun origin base' steps' => placedAll_eq_labels origin (emptyAt base') steps'⟩
  have hfit : ((emptyAt base).performAll steps).Fit := (fit_emptyAt base).performAll steps
  have hplace : ((emptyAt base).performAll steps).base = destination base steps :=
    base_performAll (emptyAt base) steps
  have hlisted := (listed_emptyAt base).performAll (fit_emptyAt base) steps hsteps (destination base steps)
  rw [← hplace, moveTo_self hfit] at hlisted
  rw [← hplace]
  exact hlisted.listing?

/-- Code with a merged buffer whose jump and store name labels of its own, moved before and after it is merged. -/
def movedSteps : List Step :=
  [.emit (.callLabel 2 33),
    .merge 0x7000 [.emit (.pushLabel 1), .moveTo 0x9000, .emit (.jumpLabel 0 false), .emit (.storeByteLabel 5 1)],
    .moveTo 0x5000,
    .emit (.jumpAddress 0x401000),
    .emit (.ret 0)]

/-- The call pushes 33 arguments by 7 bytes each, so it takes 236 bytes, and the merged buffer begins behind it. -/
theorem listing_performAll_moved :
    areCode movedSteps = true ∧
      ((listing? 0x5000 ((emptyAt 0x1000).performAll movedSteps).bytes).map (·.drop 33) =
        some [(231, .call 0x5002), (236, .pushWord 0x50ED), (241, .jump 0x50EC), (243, .storeByte 0x50F1 1),
          (250, .jump 0x401000), (255, .ret 0)]) := by
  have hcode : areCode movedSteps = true := by decide
  have hlisting := (listing_performAll 0x1000 movedSteps hcode).1
  refine ⟨hcode, ?_⟩
  rw [show (0x5000 : UInt32) = destination 0x1000 movedSteps from rfl, hlisting]
  decide +kernel

end Code

end LoadRemover
