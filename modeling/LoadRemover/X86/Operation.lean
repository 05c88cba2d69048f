import LoadRemover.Code.Instruction

/-!
# Reading machine code

The instructions that `Instruction.encode` writes, as the processor reads them: without labels, with the distances of
calls and jumps counted from the end of the instruction. `Operation.decode?` reads one instruction and `sweep?` reads
them one after the other. Both look at the bytes only, so they say what the encoding means.
-/

namespace LoadRemover.X86

/-- An instruction as the processor reads it. -/
inductive Operation where
  | subtract (register : Register) (value : UInt32)
  | move (target source : Register)
  | pushStack (displacement : UInt32)
  | pushRegister (register : Register)
  | pushWord (value : UInt32)
  | call (distance : UInt32)
  | jump (distance : UInt32)
  | storeByte (address : UInt32) (value : UInt8)
  | ret (pop : UInt16)
deriving DecidableEq

def registerOf (n : UInt8) : Register :=
  if n = 0 then .eax else if n = 1 then .ecx else if n = 2 then .edx else if n = 3 then .ebx
  else if n = 4 then .esp else if n = 5 then .ebp else if n = 6 then .esi else .edi

@[simp] theorem registerOf_code (register : Register) : registerOf register.code = register := by
  cases register <;> rfl

def signExtend (b : UInt8) : UInt32 := b.toInt8.toInt32.toUInt32

namespace Operation

def maxLength : Nat := 7

/-- The operand of four bytes in front of the bytes, if they are there. -/
private def word? (bytes : Bytes) : Option UInt32 :=
  if 4 ≤ bytes.length then some (Bytes.word (bytes.take 4)) else none

def decode? : Bytes → Option (Operation × Nat)
  | [] => none
  | opcode :: rest =>
    if opcode &&& 0xF8 = 0x50 then some (.pushRegister (registerOf (opcode &&& 7)), 1)
    else if opcode = 0x68 then (word? rest).map (.pushWord ·, 5)
    else if opcode = 0xE8 then (word? rest).map (.call ·, 5)
    else if opcode = 0xE9 then (word? rest).map (.jump ·, 5)
    else if opcode = 0xEB then rest.head?.map fun b => (.jump (signExtend b), 2)
    else if opcode = 0xC3 then some (.ret 0, 1)
    else if opcode = 0xC2 then
      if 2 ≤ rest.length then some (.ret (UInt16.ofNat (Bytes.value (rest.take 2))), 3) else none
    else
      match rest with
      | [] => none
      | operand :: rest =>
        if opcode = 0x8B then
          if operand &&& 0xC0 = 0xC0 then
            some (.move (registerOf (operand >>> 3 &&& 7)) (registerOf (operand &&& 7)), 2)
          else none
        else if opcode = 0x83 ∧ operand &&& 0xF8 = 0xE8 then
          rest.head?.map fun b => (.subtract (registerOf (operand &&& 7)) (signExtend b), 3)
        else if opcode = 0x81 ∧ operand &&& 0xF8 = 0xE8 then
          (word? rest).map (.subtract (registerOf (operand &&& 7)) ·, 6)
        else if opcode = 0xFF ∧ operand = 0x74 ∧ rest.head? = some 0x24 then
          (rest.drop 1).head?.map fun b => (.pushStack (signExtend b), 4)
        else if opcode = 0xFF ∧ operand = 0xB4 ∧ rest.head? = some 0x24 then
          (word? (rest.drop 1)).map (.pushStack ·, 7)
        else if opcode = 0xC6 ∧ operand = 0x05 then
          match word? rest, (rest.drop 4).head? with
          | some address, some value => some (.storeByte address value, 7)
          | _, _ => none
        else none

end Operation

/-- The instructions that follow one another from `offset` on, each with its offset, if the bytes are nothing else;
`steps` bounds their number. -/
def sweepFrom? : Nat → Nat → Bytes → Option (List (Nat × Operation))
  | _, _, [] => some []
  | 0, _, _ :: _ => none
  | steps + 1, offset, bytes => do
    let (operation, length) ← Operation.decode? bytes
    let rest ← sweepFrom? steps (offset + length) (bytes.drop length)
    return (offset, operation) :: rest

/-- The instructions that follow one another in the bytes, each with its offset, if the bytes are nothing else. -/
def sweep? (bytes : Bytes) : Option (List (Nat × Operation)) := sweepFrom? bytes.length 0 bytes

example : sweep? (Code.empty.emitAll [.callLabel 0 1, .ret 4]).bytes =
    some [(0, .pushStack 4), (4, .call 0xFFFFFFF7), (9, .ret 4)] := by decide

end LoadRemover.X86
