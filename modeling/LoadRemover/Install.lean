import LoadRemover.Code.Buffer
import LoadRemover.Target.Platform

/-!
# Putting code into a process
-/

namespace LoadRemover.Platform

variable {σ π : Type}

/-- Write code to the address for which it is encoded. -/
def writeCode (platform : Platform σ π) (process : π) (code : Code) : Attempt σ UInt32 := do
  unless code.isPlaced do throw .notPlaced
  platform.write process code.base code.bytes
  return code.base

/-- Whether the bytes at the address for which code is encoded are the bytes of this code. -/
def holdsCode (platform : Platform σ π) (process : π) (code : Code) : Attempt σ Bool := do
  unless code.isPlaced do throw .notPlaced
  return (← platform.read process code.base code.bytes.length) == code.bytes

/-- Put code into a new block of its size. The result is the code as it now is: once a block was found, the code is
moved there, and if it cannot be written then, the block is released again. -/
def install (platform : Platform σ π) (process : π) (code : Code) : Action σ (Code × Except Failure UInt32) := do
  match ← (platform.allocate process code.size).outcome with
  | .error failure => return (code, .error failure)
  | .ok address =>
    let code := code.moveTo address
    match ← (platform.writeCode process code).outcome with
    | .error failure =>
      if let .error second ← (platform.free process address).outcome then
        .report (.releaseFailed address second)
      return (code, .error failure)
    | .ok _ =>
      .report (.installed code.size address)
      return (code, .ok address)

end LoadRemover.Platform
