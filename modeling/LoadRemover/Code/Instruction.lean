import LoadRemover.Code.Buffer

/-!
# Instructions and their encoding

The part of the 32-bit x86 instruction set that wrappers and copied preambles need. `Instruction.encode` gives the
bytes of an instruction that starts at a given label of a given buffer: an operand that names a label or an absolute
target depends on both. `Code.emit` adds it to the buffer.

Short forms are chosen when the operand fits in a signed byte, unless the instruction asks for the wide form.
-/

namespace LoadRemover

/-- The general purpose registers, in the order of their encoding. -/
inductive Register where
  | eax | ecx | edx | ebx | esp | ebp | esi | edi
deriving DecidableEq

namespace Register

def all : List Register := [eax, ecx, edx, ebx, esp, ebp, esi, edi]

def code : Register → UInt8
  | eax => 0 | ecx => 1 | edx => 2 | ebx => 3 | esp => 4 | ebp => 5 | esi => 6 | edi => 7

def name : Register → String
  | eax => "eax" | ecx => "ecx" | edx => "edx" | ebx => "ebx"
  | esp => "esp" | ebp => "ebp" | esi => "esi" | edi => "edi"

end Register

/-- One instruction. A label is an offset in the buffer that receives the instruction. -/
inductive Instruction where
  | subImmediate (register : Register) (value : Int32) (wide : Bool)
  | moveRegister (target source : Register)
  /-- Push the stack word at a distance from the top. -/
  | pushStack (displacement : Int32) (wide : Bool)
  | pushRegister (register : Register)
  | pushImmediate (value : UInt32)
  | pushLabel (label : Nat)
  /-- Push copies of the topmost `args` stack words, in their order, and call a label. -/
  | callLabel (label : Nat) (args : UInt8)
  /-- Push copies of the topmost `args` stack words, in their order, and call an address. -/
  | callAddress (target : UInt32) (args : UInt8)
  | jumpLabel (label : Nat) (wide : Bool)
  | jumpAddress (target : UInt32)
  | storeByteAddress (address : UInt32) (value : UInt8)
  | storeByteLabel (label : Nat) (value : UInt8)
  /-- Return to the caller and drop `pop` bytes of arguments. -/
  | ret (pop : UInt16)
deriving DecidableEq

namespace Instruction

def fitsByte (n : Int32) : Bool := -128 ≤ n && n ≤ 127

def shortByte (n : Int32) : UInt8 := n.toUInt32.toUInt8

private def wideBytes (n : Int32) : Bytes := Bytes.littleEndian32 n.toUInt32

/-- The bytes that push the stack word at a distance from the top. -/
def pushStackBytes (displacement : Int32) (wide : Bool) : Bytes :=
  if !wide && fitsByte displacement then
    [0xFF, 0x74, 0x24, shortByte displacement]
  else
    [0xFF, 0xB4, 0x24] ++ wideBytes displacement

/-- The bytes that push copies of the topmost `args` stack words. Each push lowers the top by one word, so the same
distance names the next argument every time. -/
def forwardBytes (args : UInt8) : Bytes :=
  (List.replicate args.toNat (pushStackBytes (Int32.ofNat (args.toNat * 4)) false)).flatten

/-- A call of `target`, an offset from the base of the buffer, that starts at `start`. -/
def callBytes (start : Nat) (target : UInt32) (args : UInt8) : Bytes :=
  let pushes := forwardBytes args
  pushes ++ 0xE8 :: Bytes.littleEndian32 (target - UInt32.ofNat (start + pushes.length + 5))

/-- A jump to `target`, an offset from the base of the buffer, that starts at `start`. -/
def jumpBytes (start : Nat) (target : UInt32) (wide : Bool) : Bytes :=
  let short := (target - UInt32.ofNat (start + 2)).toInt32
  if !wide && fitsByte short then
    [0xEB, shortByte short]
  else
    0xE9 :: Bytes.littleEndian32 (target - UInt32.ofNat (start + 5))

private def storeBytes (address : UInt32) (value : UInt8) : Bytes :=
  [0xC6, 0x05] ++ Bytes.littleEndian32 address ++ [value]

/-- A fragment whose last four bytes have to be corrected on a move. -/
private def endsIn (bytes : Bytes) (kind : RelocationKind) : Fragment :=
  ⟨bytes, [⟨bytes.length - Relocation.width, kind⟩]⟩

/-- The bytes of an instruction placed at the end of `code`, and the fields among them that a move has to correct. -/
def encode (code : Code) : Instruction → Fragment
  | .subImmediate register value wide =>
    if !wide && fitsByte value then
      { bytes := [0x83, 0xE8 + register.code, shortByte value] }
    else
      { bytes := [0x81, 0xE8 + register.code] ++ wideBytes value }
  | .moveRegister target source => { bytes := [0x8B, (0xC0 : UInt8) ||| (target.code <<< 3) ||| source.code] }
  | .pushStack displacement wide => { bytes := pushStackBytes displacement wide }
  | .pushRegister register => { bytes := [0x50 + register.code] }
  | .pushImmediate value => { bytes := 0x68 :: Bytes.littleEndian32 value }
  | .pushLabel label => endsIn (0x68 :: Bytes.littleEndian32 (code.address label)) .internal
  | .callLabel label args => { bytes := callBytes code.size (UInt32.ofNat label) args }
  | .callAddress target args => endsIn (callBytes code.size (target - code.base) args) .external
  | .jumpLabel label wide => { bytes := jumpBytes code.size (UInt32.ofNat label) wide }
  | .jumpAddress target => endsIn (jumpBytes code.size (target - code.base) true) .external
  | .storeByteAddress address value => { bytes := storeBytes address value }
  | .storeByteLabel label value => ⟨storeBytes (code.address label) value, [⟨2, .internal⟩]⟩
  | .ret pop => { bytes := if pop = 0 then [0xC3] else 0xC2 :: Bytes.littleEndian16 pop }

end Instruction

namespace Code

/-- Add an instruction at the end. Its label is the size of the code before. -/
def emit (code : Code) (instruction : Instruction) : Code :=
  code.append (instruction.encode code)

def emitAll (code : Code) (instructions : List Instruction) : Code :=
  instructions.foldl emit code

end Code

end LoadRemover
