import LoadRemover.Code.Instruction
import LoadRemover.Proofs.Fields

/-!
# Moving commutes with assembling

Every instruction is encoded for the address at which the buffer lies when it is added, and a move corrects the
fields that depend on this address. So it makes no difference when a buffer is moved: `Step`s that add something may
be mixed with moves, and the result is the one of adding everything at the final address.

The invariant is that the fields of a buffer always fit into it (`Code.Fit.perform`); with it, one step after a move
is the move after this step (`Code.perform_moveTo`), and induction on the steps gives the rest.
-/

namespace LoadRemover

/-! ### Fragments with one field -/

def Fragment.withField (pre : Bytes) (kind : RelocationKind) (w : UInt32) (post : Bytes) : Fragment :=
  ⟨pre ++ Bytes.littleEndian32 w ++ post, [⟨pre.length, kind⟩]⟩

namespace Fragment

private theorem fit_plain (bytes : Bytes) : Fragment.Fit { bytes } := Relocation.Fit.nil _

theorem moved_plain (bytes : Bytes) (delta : UInt32) : Fragment.moved { bytes } delta = { bytes } := rfl

private theorem fit_withField (pre : Bytes) (kind : RelocationKind) (w : UInt32) (post : Bytes) :
    (withField pre kind w post).Fit := by
  refine ⟨?_, List.pairwise_singleton ..⟩
  intro r hr
  rw [List.mem_singleton.1 hr]
  simp [withField, Relocation.width]

private theorem moved_withField (pre : Bytes) (kind : RelocationKind) (w : UInt32) (post : Bytes) (delta : UInt32) :
    (withField pre kind w post).moved delta =
      withField pre kind (Relocation.adjust ⟨pre.length, kind⟩ delta w) post := by
  have hbytes := Relocation.apply_at ⟨pre.length, kind⟩ delta w pre post rfl
  simp only [moved, withField, Fragment.mk.injEq, and_true]
  exact hbytes

end Fragment

/-! ### The encoding at another address -/

namespace Instruction

private theorem encode_pushLabel (code : Code) (label : Nat) :
    (pushLabel label).encode code = .withField [0x68] .internal (code.address label) [] := rfl

private theorem encode_storeByteLabel (code : Code) (label : Nat) (value : UInt8) :
    (storeByteLabel label value).encode code = .withField [0xC6, 0x05] .internal (code.address label) [value] := rfl

theorem encode_jumpAddress (code : Code) (target : UInt32) :
    (jumpAddress target).encode code =
      .withField [0xE9] .external (target - code.base - UInt32.ofNat (code.size + 5)) [] := rfl

private theorem encode_callAddress (code : Code) (target : UInt32) (args : UInt8) :
    (callAddress target args).encode code =
      .withField (forwardBytes args ++ [0xE8]) .external
        (target - code.base - UInt32.ofNat (code.size + (forwardBytes args).length + 5)) [] := by
  show Fragment.mk _ [⟨(callBytes code.size (target - code.base) args).length - 4, .external⟩] = _
  simp [callBytes, Fragment.withField]

theorem fit_encode (instruction : Instruction) (code : Code) : (instruction.encode code).Fit := by
  cases instruction with
  | pushLabel label => exact Fragment.fit_withField ..
  | storeByteLabel label value => exact Fragment.fit_withField ..
  | jumpAddress target => exact Fragment.fit_withField ..
  | callAddress target args =>
    rw [encode_callAddress]
    exact Fragment.fit_withField ..
  | subImmediate register value wide =>
    simp only [encode]
    split <;> exact Fragment.fit_plain _
  | _ => exact Fragment.fit_plain _

/-- An instruction encoded for one address and corrected for another one is encoded for this one. -/
theorem moved_encode (instruction : Instruction) {code code' : Code} (h : code'.size = code.size) :
    (instruction.encode code).moved (code'.base - code.base) = instruction.encode code' := by
  -- labels move with the code, and fixed places move away from it
  have haddress : ∀ label, code.address label + (code'.base - code.base) = code'.address label := by
    intro label
    simp only [Code.address]
    grind
  have hdistance : ∀ target n : UInt32,
      target - code.base - n - (code'.base - code.base) = target - code'.base - n := by
    intro target n
    grind
  -- four forms have a field; the others have the same bytes everywhere
  cases instruction with
  | pushLabel label =>
    rw [encode_pushLabel, encode_pushLabel, Fragment.moved_withField]
    simp only [Relocation.adjust, haddress]
  | storeByteLabel label value =>
    rw [encode_storeByteLabel, encode_storeByteLabel, Fragment.moved_withField]
    simp only [Relocation.adjust, haddress]
  | jumpAddress target =>
    rw [encode_jumpAddress, encode_jumpAddress, Fragment.moved_withField, h]
    simp only [Relocation.adjust, hdistance]
  | callAddress target args =>
    rw [encode_callAddress, encode_callAddress, Fragment.moved_withField, h]
    simp only [Relocation.adjust, hdistance]
  | callLabel label args => simp only [encode, h, Fragment.moved_plain]
  | jumpLabel label wide => simp only [encode, h, Fragment.moved_plain]
  | subImmediate register value wide =>
    simp only [encode]
    split <;> rfl
  | _ => rfl

end Instruction

namespace Code

/-! ### One addition after a move -/

variable {code child : Code}

theorem Fit.emit (h : code.Fit) (instruction : Instruction) : (code.emit instruction).Fit :=
  h.append (instruction.fit_encode code)

theorem Fit.data (h : code.Fit) (bytes : Bytes) : (code.data bytes).Fit := h.append (Fragment.fit_plain bytes)

theorem Fit.merge (h : code.Fit) (hchild : child.Fit) : (code.merge child).Fit :=
  h.append (hchild.moveTo code.endAddress)

theorem moveTo_data (h : code.Fit) (bytes : Bytes) (base : UInt32) :
    (code.data bytes).moveTo base = (code.moveTo base).data bytes :=
  moveTo_append h (Fragment.fit_plain bytes) base

theorem moveTo_emit (h : code.Fit) (instruction : Instruction) (base : UInt32) :
    (code.emit instruction).moveTo base = (code.moveTo base).emit instruction := by
  unfold emit
  rw [moveTo_append h (instruction.fit_encode code), ← instruction.moved_encode (size_moveTo h base)]
  rfl

theorem moveTo_merge (h : code.Fit) (hchild : child.Fit) (base : UInt32) :
    (code.merge child).moveTo base = (code.moveTo base).merge child := by
  have hend : (code.moveTo base).endAddress = code.endAddress + (base - code.base) := by
    simp only [endAddress, address, size_moveTo h, moveTo_base]
    grind
  have hbytes : (child.moveTo (code.endAddress + (base - code.base))).bytes =
      Relocation.applyAll child.relocations (base - code.base) (child.moveTo code.endAddress).bytes := by
    have hdelta : code.endAddress + (base - code.base) - code.endAddress = base - code.base := by grind
    rw [← moveTo_moveTo hchild code.endAddress, moveTo, movedBytes_eq, moveTo_base, hdelta, moveTo_relocations]
  have hfragment : Fragment.Fit ⟨(child.moveTo code.endAddress).bytes, child.relocations⟩ :=
    hchild.moveTo code.endAddress
  unfold merge
  rw [moveTo_append h hfragment, hend, hbytes]
  rfl

/-! ### Building a buffer step by step -/

inductive Step where
  | data (bytes : Bytes)
  | emit (instruction : Instruction)
  /-- Add a buffer that steps of its own have built, from an empty one at `base`. -/
  | merge (base : UInt32) (steps : List Step)
  | moveTo (base : UInt32)

def Step.adds : Step → Bool
  | moveTo _ => false
  | _ => true

mutual

def perform (code : Code) : Step → Code
  | .data bytes => code.data bytes
  | .emit instruction => code.emit instruction
  | .merge base steps => code.merge ((emptyAt base).performAll steps)
  | .moveTo base => code.moveTo base

def performAll (code : Code) : List Step → Code
  | [] => code
  | step :: rest => (code.perform step).performAll rest

end

/-- The labels of what the steps add, in their order. -/
def labels (code : Code) : List Step → List Nat
  | [] => []
  | step :: rest => (if step.adds then [code.size] else []) ++ (code.perform step).labels rest

/-- The address at which a buffer from `base` lies after the steps. -/
def destination (base : UInt32) : List Step → UInt32
  | [] => base
  | .moveTo address :: rest => destination address rest
  | _ :: rest => destination base rest

mutual

theorem Fit.perform {code : Code} (h : code.Fit) : ∀ step : Step, (code.perform step).Fit
  | .data bytes => h.data bytes
  | .emit instruction => h.emit instruction
  | .merge base steps => h.merge ((fit_emptyAt base).performAll steps)
  | .moveTo base => h.moveTo base

theorem Fit.performAll {code : Code} (h : code.Fit) : ∀ steps : List Step, (code.performAll steps).Fit
  | [] => h
  | step :: rest => (h.perform step).performAll rest

end

theorem perform_moveTo (h : code.Fit) {step : Step} (hadds : step.adds = true) (base : UInt32) :
    (code.moveTo base).perform step = (code.perform step).moveTo base := by
  cases step with
  | data bytes => exact (moveTo_data h bytes base).symm
  | emit instruction => exact (moveTo_emit h instruction base).symm
  | merge childBase steps => exact (moveTo_merge h ((fit_emptyAt childBase).performAll steps) base).symm
  | moveTo address => exact absurd hadds (by simp [Step.adds])

private theorem base_perform (code : Code) {step : Step} (hadds : step.adds = true) :
    (code.perform step).base = code.base := by
  cases step with
  | moveTo address => exact absurd hadds (by simp [Step.adds])
  | _ => rfl

private theorem destination_cons (base : UInt32) {step : Step} (hadds : step.adds = true) (rest : List Step) :
    destination base (step :: rest) = destination base rest := by
  cases step with
  | moveTo address => exact absurd hadds (by simp [Step.adds])
  | _ => rfl

/-- Steps with moves among them, and the same steps without them on the buffer moved to the final address. -/
private theorem performAll_eq_moveTo (h : code.Fit) (steps : List Step) :
    code.performAll steps = (code.moveTo (destination code.base steps)).performAll (steps.filter (·.adds)) ∧
      code.labels steps = (code.moveTo (destination code.base steps)).labels (steps.filter (·.adds)) := by
  induction steps generalizing code with
  | nil => exact ⟨(moveTo_self h).symm, rfl⟩
  | cons step rest ih =>
    obtain ⟨hcode, hlabels⟩ := ih (h.perform step)
    cases hadds : step.adds with
    | false =>
      -- the destination is that of the rest, so this move is lost
      obtain ⟨address, rfl⟩ : ∃ address, step = .moveTo address := by
        cases step <;> simp_all [Step.adds]
      rw [List.filter_cons_of_neg (by simp [hadds]), performAll, labels, hcode, hlabels]
      simp only [perform, moveTo_base, moveTo_moveTo h, destination, Step.adds, Bool.false_eq_true, ↓reduceIte,
        List.nil_append, and_self]
    | true =>
      rw [base_perform code hadds] at hcode hlabels
      rw [List.filter_cons_of_pos hadds, destination_cons _ hadds, performAll, labels, performAll, labels,
        perform_moveTo h hadds, size_moveTo h, hcode, hlabels]
      exact ⟨rfl, rfl⟩

theorem base_performAll (code : Code) (steps : List Step) :
    (code.performAll steps).base = destination code.base steps := by
  induction steps generalizing code with
  | nil => rfl
  | cons step rest ih =>
    rw [performAll, ih]
    cases step <;> rfl

/-- It does not matter when a buffer is moved: building it with moves in between gives the bytes, fields, base and
labels of building it at the final address. So only the last of several moves counts, and moving away and back
restores the buffer. -/
theorem performAll_eq_at_destination (base : UInt32) (steps : List Step) :
    (emptyAt base).performAll steps =
        (emptyAt (destination base steps)).performAll (steps.filter (·.adds)) ∧
      (emptyAt base).labels steps = (emptyAt (destination base steps)).labels (steps.filter (·.adds)) ∧
      ((emptyAt base).performAll steps).base = destination base steps ∧
      ∀ a b, (((emptyAt base).performAll steps).moveTo a).moveTo b = ((emptyAt base).performAll steps).moveTo b ∧
        (((emptyAt base).performAll steps).moveTo a).moveTo (destination base steps) =
          (emptyAt base).performAll steps := by
  obtain ⟨hcode, hlabels⟩ := performAll_eq_moveTo (fit_emptyAt base) steps
  have hbase := base_performAll (emptyAt base) steps
  have hfit : ((emptyAt base).performAll steps).Fit := (fit_emptyAt base).performAll steps
  refine ⟨hcode, hlabels, hbase, fun a b => ⟨moveTo_moveTo hfit a b, ?_⟩⟩
  have hback := moveTo_self hfit
  rw [hbase] at hback
  rw [moveTo_moveTo hfit]
  exact hback

end Code

end LoadRemover
