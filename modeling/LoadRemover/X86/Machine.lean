import LoadRemover.X86.Operation

/-!
# Running machine code

The state of the processor as far as the instructions of `Operation` see it, and what each of them does to it. The
stack grows downwards, and addresses are counted modulo `2 ^ 32`.
-/

namespace LoadRemover.X86

abbrev Memory := UInt32 → UInt8

namespace Memory

def slice (memory : Memory) (address : UInt32) (n : Nat) : Bytes :=
  (List.range n).map fun i => memory (address + UInt32.ofNat i)

def word (memory : Memory) (address : UInt32) : UInt32 := (memory.slice address 4).word

def store (memory : Memory) (address : UInt32) (bytes : Bytes) : Memory := fun a =>
  bytes.getD (a - address).toNat (memory a)

def Holds (memory : Memory) (address : UInt32) (bytes : Bytes) : Prop :=
  memory.slice address bytes.length = bytes

end Memory

/-- The state of the processor. -/
structure Machine where
  register : Register → UInt32
  instruction : UInt32
  memory : Memory

namespace Machine

def set (machine : Machine) (register : Register) (value : UInt32) : Machine :=
  { machine with register := fun r => if r = register then value else machine.register r }

def goTo (machine : Machine) (address : UInt32) : Machine := { machine with instruction := address }

def store (machine : Machine) (address : UInt32) (bytes : Bytes) : Machine :=
  { machine with memory := machine.memory.store address bytes }

def top (machine : Machine) : UInt32 := machine.register .esp

def stackWord (machine : Machine) (i : Nat) : UInt32 := machine.memory.word (machine.top + UInt32.ofNat (4 * i))

def push (machine : Machine) (value : UInt32) : Machine :=
  (machine.set .esp (machine.top - 4)).store (machine.top - 4) (Bytes.littleEndian32 value)

/-- Carry out an operation; the next instruction is the one that follows it, unless it says otherwise. -/
def apply (machine : Machine) : Operation → Machine
  | .subtract register value => machine.set register (machine.register register - value)
  | .move target source => machine.set target (machine.register source)
  | .pushStack displacement => machine.push (machine.memory.word (machine.top + displacement))
  | .pushRegister register => machine.push (machine.register register)
  | .pushWord value => machine.push value
  | .call distance => (machine.push machine.instruction).goTo (machine.instruction + distance)
  | .jump distance => machine.goTo (machine.instruction + distance)
  | .storeByte address value => machine.store address [value]
  | .ret pop => (machine.set .esp (machine.top + 4 + pop.toUInt32)).goTo (machine.stackWord 0)

def step? (machine : Machine) : Option Machine := do
  let (operation, length) ← Operation.decode? (machine.memory.slice machine.instruction Operation.maxLength)
  return (machine.goTo (machine.instruction + UInt32.ofNat length)).apply operation

def run? : Nat → Machine → Option Machine
  | 0, machine => some machine
  | n + 1, machine => do run? n (← machine.step?)

end Machine

end LoadRemover.X86
