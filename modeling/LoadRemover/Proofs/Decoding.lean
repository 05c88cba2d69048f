import LoadRemover.X86.Operation

/-!
# What the encoded bytes mean

The decoder looks at the bytes alone, and it finds the instruction that the assembler has encoded:

* `Encodes bytes operation`: whatever follows them, the bytes are read as the one operation;
* `Reads bytes operations`: the bytes are read as the operations, one after the other.

`Instruction.reads_encode` has one case for each instruction. A short form is read with its operand extended, so the
size of the operand does not show in the operation.
-/

namespace LoadRemover.X86

/-- Whatever follows them, the bytes are read as the operation. -/
def Encodes (bytes : Bytes) (operation : Operation) : Prop :=
  bytes.length ≤ Operation.maxLength ∧ ∀ rest, Operation.decode? (bytes ++ rest) = some (operation, bytes.length)

/-- The bytes are read as the operations, one after the other. -/
inductive Reads : Bytes → List Operation → Prop where
  | nil : Reads [] []
  | cons {bytes rest : Bytes} {operation : Operation} {operations : List Operation}
      (head : Encodes bytes operation) (tail : Reads rest operations) : Reads (bytes ++ rest) (operation :: operations)

theorem Encodes.length_pos {bytes : Bytes} {operation : Operation} (h : Encodes bytes operation) :
    0 < bytes.length := by
  cases bytes with
  | nil => exact absurd (h.2 []) (by simp [Operation.decode?])
  | cons byte bytes => simp

namespace Reads

variable {xs ys : Bytes} {os ps : List Operation}

theorem single {operation : Operation} (h : Encodes xs operation) : Reads xs [operation] := by
  have := Reads.cons h .nil
  rwa [List.append_nil] at this

theorem append (hx : Reads xs os) (hy : Reads ys ps) : Reads (xs ++ ys) (os ++ ps) := by
  induction hx with
  | nil => exact hy
  | cons head tail ih =>
    rw [List.append_assoc]
    exact .cons head ih

theorem length_le (h : Reads xs os) : os.length ≤ xs.length := by
  induction h with
  | nil => exact Nat.le_refl 0
  | cons head tail ih =>
    have := head.length_pos
    rw [List.length_cons, List.length_append]
    omega

theorem split (h : Reads xs (os ++ ps)) : ∃ front back, xs = front ++ back ∧ Reads front os ∧ Reads back ps := by
  induction os generalizing xs with
  | nil => exact ⟨[], xs, rfl, .nil, h⟩
  | cons operation os ih =>
    cases h with
    | @cons bytes rest _ _ head tail =>
      obtain ⟨front, back, rfl, hfront, hback⟩ := ih tail
      exact ⟨bytes ++ front, back, (List.append_assoc ..).symm, .cons head hfront, hback⟩

theorem encodes {operation : Operation} (h : Reads xs [operation]) : Encodes xs operation := by
  cases h with
  | cons head tail =>
    cases tail
    rwa [List.append_nil]

private theorem replicate {operation : Operation} (h : Encodes xs operation) (n : Nat) :
    Reads (List.replicate n xs).flatten (List.replicate n operation) := by
  induction n with
  | zero => exact .nil
  | succ n ih =>
    rw [List.replicate_succ, List.flatten_cons, List.replicate_succ]
    exact .cons h ih

private theorem sweepFrom? (h : Reads xs os) {steps : Nat} (hsteps : xs.length ≤ steps) (offset : Nat) :
    (X86.sweepFrom? steps offset xs).map (·.map (·.2)) = some os := by
  induction h generalizing steps offset with
  | nil => cases steps <;> rfl
  | @cons bytes rest operation operations head tail ih =>
    have hread := head.2 rest
    rw [List.length_append] at hsteps
    cases bytes with
    | nil => exact absurd head.length_pos (Nat.lt_irrefl 0)
    | cons byte bytes =>
      cases steps with
      | zero => simp at hsteps
      | succ steps =>
        have hrest := @ih steps (by simp at hsteps; omega) (offset + (byte :: bytes).length)
        obtain ⟨found, hfound, hoperations⟩ := Option.map_eq_some_iff.1 hrest
        have hdrop : (byte :: (bytes ++ rest)).drop (byte :: bytes).length = rest := by simp
        rw [List.cons_append] at hread
        rw [List.cons_append]
        simp only [X86.sweepFrom?, hread, Option.bind_eq_bind, Option.bind_some, Option.pure_def, hdrop, hfound,
          Option.map_some, List.map_cons, hoperations]

theorem sweep? (h : Reads xs os) : (X86.sweep? xs).map (·.map (·.2)) = some os := h.sweepFrom? (Nat.le_refl _) 0

end Reads

/-! ### Operands of one byte -/

private theorem toInt8_toUInt8 (n : Int32) : n.toUInt32.toUInt8.toInt8 = n.toInt8 := by
  have hwidth : n.toBitVec.signExtend 8 = n.toBitVec.setWidth 8 := BitVec.signExtend_eq_setWidth_of_le _ (by decide)
  apply Int8.toBitVec_inj.1
  rw [UInt8.toBitVec_toInt8, UInt32.toBitVec_toUInt8, Int32.toBitVec_toInt8, hwidth]
  rfl

private theorem signExtend_shortByte {n : Int32} (h : Instruction.fitsByte n = true) :
    signExtend (Instruction.shortByte n) = n.toUInt32 := by
  have hrange : -128 ≤ n.toInt ∧ n.toInt ≤ 127 := by
    simpa [Instruction.fitsByte, Int32.le_iff_toInt_le] using h
  have hnumber : n.toInt8.toInt32 = n := by
    apply Int32.toInt_inj.1
    rw [Int8.toInt_toInt32, Int32.toInt_toInt8]
    rw [Int.bmod_eq_of_le] <;> omega
  unfold signExtend Instruction.shortByte
  rw [toInt8_toUInt8, hnumber]

/-! ### Single operations -/

namespace Operation

private theorem encodes_pushRegister (register : Register) :
    Encodes [0x50 + register.code] (.pushRegister register) := by
  refine ⟨by simp [maxLength], fun rest => ?_⟩
  cases register <;> rfl

private theorem encodes_move (target source : Register) :
    Encodes [0x8B, (0xC0 : UInt8) ||| (target.code <<< 3) ||| source.code] (.move target source) := by
  refine ⟨by simp [maxLength], fun rest => ?_⟩
  cases target <;> cases source <;> rfl

private theorem encodes_pushWord (value : UInt32) : Encodes (0x68 :: Bytes.littleEndian32 value) (.pushWord value) := by
  refine ⟨by simp [maxLength], fun rest => ?_⟩
  have hword := Bytes.word_littleEndian32 value
  show (some (pushWord (Bytes.littleEndian32 value).word, 5) : Option _) = _
  rw [hword]
  rfl

theorem encodes_call (distance : UInt32) : Encodes (0xE8 :: Bytes.littleEndian32 distance) (.call distance) := by
  refine ⟨by simp [maxLength], fun rest => ?_⟩
  have hword := Bytes.word_littleEndian32 distance
  show (some (call (Bytes.littleEndian32 distance).word, 5) : Option _) = _
  rw [hword]
  rfl

theorem encodes_jump (distance : UInt32) : Encodes (0xE9 :: Bytes.littleEndian32 distance) (.jump distance) := by
  refine ⟨by simp [maxLength], fun rest => ?_⟩
  have hword := Bytes.word_littleEndian32 distance
  show (some (jump (Bytes.littleEndian32 distance).word, 5) : Option _) = _
  rw [hword]
  rfl

private theorem encodes_jumpShort {n : Int32} (h : Instruction.fitsByte n = true) :
    Encodes [0xEB, Instruction.shortByte n] (.jump n.toUInt32) := by
  refine ⟨by simp [maxLength], fun rest => ?_⟩
  rw [← signExtend_shortByte h]
  rfl

private theorem encodes_subtractShort (register : Register) {n : Int32} (h : Instruction.fitsByte n = true) :
    Encodes [0x83, 0xE8 + register.code, Instruction.shortByte n] (.subtract register n.toUInt32) := by
  refine ⟨by simp [maxLength], fun rest => ?_⟩
  rw [← signExtend_shortByte h]
  cases register <;> rfl

private theorem encodes_subtract (register : Register) (value : UInt32) :
    Encodes ([0x81, 0xE8 + register.code] ++ Bytes.littleEndian32 value) (.subtract register value) := by
  refine ⟨by simp [maxLength], fun rest => ?_⟩
  have hword := Bytes.word_littleEndian32 value
  have hread : decode? ([0x81, 0xE8 + register.code] ++ Bytes.littleEndian32 value ++ rest) =
      some (.subtract register (Bytes.littleEndian32 value).word, 6) := by
    cases register <;> rfl
  rw [hread, hword]
  rfl

theorem encodes_pushStack (displacement : Int32) (wide : Bool) :
    Encodes (Instruction.pushStackBytes displacement wide) (.pushStack displacement.toUInt32) := by
  unfold Instruction.pushStackBytes
  split
  · rename_i h
    have hfits : Instruction.fitsByte displacement = true := by
      rw [Bool.and_eq_true] at h
      exact h.2
    refine ⟨by simp [maxLength], fun rest => ?_⟩
    rw [← signExtend_shortByte hfits]
    rfl
  · refine ⟨Nat.le_refl 7, fun rest => ?_⟩
    have hword := Bytes.word_littleEndian32 displacement.toUInt32
    show (some (pushStack (Bytes.littleEndian32 displacement.toUInt32).word, 7) : Option _) = _
    rw [hword]
    rfl

private theorem encodes_storeByte (address : UInt32) (value : UInt8) :
    Encodes ([0xC6, 0x05] ++ Bytes.littleEndian32 address ++ [value]) (.storeByte address value) := by
  refine ⟨by simp [maxLength], fun rest => ?_⟩
  have hword := Bytes.word_littleEndian32 address
  show (some (storeByte (Bytes.littleEndian32 address).word value, 7) : Option _) = _
  rw [hword]
  rfl

private theorem encodes_ret (pop : UInt16) :
    Encodes (if pop = 0 then [0xC3] else 0xC2 :: Bytes.littleEndian16 pop) (.ret pop) := by
  split
  · rename_i h
    subst h
    exact ⟨by decide, fun rest => rfl⟩
  · refine ⟨by simp [maxLength], fun rest => ?_⟩
    have hvalue : UInt16.ofNat (Bytes.value (Bytes.littleEndian16 pop)) = pop := by
      have := pop.toNat_lt
      apply UInt16.toNat_inj.1
      simp [Bytes.littleEndian16, Bytes.value, Nat.shiftRight_eq_div_pow]
      omega
    show (some (ret (UInt16.ofNat (Bytes.value (Bytes.littleEndian16 pop))), 3) : Option _) = _
    rw [hvalue]
    rfl

end Operation

end LoadRemover.X86

namespace LoadRemover.Instruction

open X86

/-! ### Whole instructions -/

/-- What the processor reads for an instruction at the end of `code`. Distances count from the end of the
instruction. -/
def operations (code : Code) (instruction : Instruction) : List X86.Operation :=
  let next := (code.emit instruction).endAddress
  let forward (args : UInt8) := List.replicate args.toNat (.pushStack (UInt32.ofNat (args.toNat * 4)))
  match instruction with
  | .subImmediate register value _ => [.subtract register value.toUInt32]
  | .moveRegister target source => [.move target source]
  | .pushStack displacement _ => [.pushStack displacement.toUInt32]
  | .pushRegister register => [.pushRegister register]
  | .pushImmediate value => [.pushWord value]
  | .pushLabel label => [.pushWord (code.address label)]
  | .callLabel label args => forward args ++ [.call (code.address label - next)]
  | .callAddress target args => forward args ++ [.call (target - next)]
  | .jumpLabel label _ => [.jump (code.address label - next)]
  | .jumpAddress target => [.jump (target - next)]
  | .storeByteAddress address value => [.storeByte address value]
  | .storeByteLabel label value => [.storeByte (code.address label) value]
  | .ret pop => [.ret pop]

private theorem reads_callBytes (start : Nat) (target : UInt32) (args : UInt8) :
    Reads (callBytes start target args)
      (List.replicate args.toNat (.pushStack (UInt32.ofNat (args.toNat * 4))) ++
        [.call (target - UInt32.ofNat (start + (callBytes start target args).length))]) := by
  have hlength : start + (callBytes start target args).length = start + (forwardBytes args).length + 5 := by
    simp only [callBytes, List.length_append, List.length_cons, Bytes.length_littleEndian32]
    omega
  have hpush := Operation.encodes_pushStack (Int32.ofNat (args.toNat * 4)) false
  rw [hlength]
  exact (Reads.replicate hpush args.toNat).append (.single (Operation.encodes_call _))

theorem reads_jumpBytes (start : Nat) (target : UInt32) (wide : Bool) :
    Reads (jumpBytes start target wide)
      [.jump (target - UInt32.ofNat (start + (jumpBytes start target wide).length))] := by
  unfold jumpBytes
  simp only
  split
  · rename_i h
    rw [Bool.and_eq_true] at h
    exact .single (Operation.encodes_jumpShort h.2)
  · exact .single (Operation.encodes_jump _)

/-- The encoding of an instruction is read as what the instruction stands for. -/
theorem reads_encode (instruction : Instruction) (code : Code) :
    Reads (instruction.encode code).bytes (instruction.operations code) := by
  have hnext : (code.emit instruction).endAddress =
      code.base + UInt32.ofNat (code.size + (instruction.encode code).bytes.length) := by
    simp only [Code.endAddress, Code.address, Code.emit, Code.size_append, Code.append_base]
  have hlabel : ∀ l n : UInt32, code.base + l - (code.base + n) = l - n := by
    intro l n
    grind
  have htarget : ∀ t n : UInt32, t - (code.base + n) = t - code.base - n := by
    intro t n
    grind
  cases instruction with
  | subImmediate register value wide =>
    simp only [encode, operations]
    split
    · rename_i h
      rw [Bool.and_eq_true] at h
      exact .single (Operation.encodes_subtractShort register h.2)
    · exact .single (Operation.encodes_subtract register value.toUInt32)
  | moveRegister target source => exact .single (Operation.encodes_move target source)
  | pushStack displacement wide => exact .single (Operation.encodes_pushStack displacement wide)
  | pushRegister register => exact .single (Operation.encodes_pushRegister register)
  | pushImmediate value => exact .single (Operation.encodes_pushWord value)
  | pushLabel label => exact .single (Operation.encodes_pushWord (code.address label))
  | callLabel label args =>
    simp only [operations, hnext, Code.address, hlabel]
    exact reads_callBytes code.size (UInt32.ofNat label) args
  | callAddress target args =>
    simp only [operations, hnext, htarget]
    exact reads_callBytes code.size (target - code.base) args
  | jumpLabel label wide =>
    simp only [operations, hnext, Code.address, hlabel]
    exact reads_jumpBytes code.size (UInt32.ofNat label) wide
  | jumpAddress target =>
    simp only [operations, hnext, htarget]
    exact reads_jumpBytes code.size (target - code.base) true
  | storeByteAddress address value => exact .single (Operation.encodes_storeByte address value)
  | storeByteLabel label value => exact .single (Operation.encodes_storeByte (code.address label) value)
  | ret pop => exact .single (Operation.encodes_ret pop)

end LoadRemover.Instruction

namespace LoadRemover.Code

/-- What the processor reads for instructions at the end of `code`. -/
def operations (code : Code) : List Instruction → List X86.Operation
  | [] => []
  | instruction :: rest => instruction.operations code ++ (code.emit instruction).operations rest

/-- Instructions add bytes that are read as what they stand for. -/
theorem reads_emitAll (code : Code) (instructions : List Instruction) :
    ∃ bytes, (code.emitAll instructions).bytes = code.bytes ++ bytes ∧
      X86.Reads bytes (code.operations instructions) := by
  induction instructions generalizing code with
  | nil => exact ⟨[], (List.append_nil _).symm, .nil⟩
  | cons instruction rest ih =>
    obtain ⟨bytes, hbytes, hreads⟩ := ih (code.emit instruction)
    refine ⟨(instruction.encode code).bytes ++ bytes, ?_, (instruction.reads_encode code).append hreads⟩
    rw [← List.append_assoc]
    exact hbytes

end LoadRemover.Code
