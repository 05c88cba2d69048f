import LoadRemover.Hex

/-!
# What can go wrong with a process
-/

namespace LoadRemover

/-- Why an access to a process failed. A `reason` is the operating system's own text. -/
inductive Failure where
  | listing (reason : String)
  | opening (pid : UInt32) (reason : String)
  | exited
  | reading (address : UInt32) (reason : String)
  | writing (address : UInt32) (reason : String)
  | allocating (size : Nat) (reason : String)
  | freeing (address : UInt32) (reason : String)
  | addressOutOfRange (address : UInt64)
  /-- Code without an address was to be written or compared. -/
  | notPlaced
  | unsupported (reason : String)
deriving DecidableEq

namespace Failure

def message : Failure → String
  | listing reason => s!"Failed to enumerate processes: {reason}"
  | opening pid reason => s!"Failed to open process {pid}: {reason}"
  | exited => "Process has exited"
  | reading address reason => s!"Failed to read process memory at address {hex address.toNat}: {reason}"
  | writing address reason => s!"Failed to write process memory at address {hex address.toNat}: {reason}"
  | allocating size reason => s!"Failed to allocate {size} bytes in process: {reason}"
  | freeing address reason => s!"Failed to free process memory at address {hex address.toNat}: {reason}"
  | addressOutOfRange address => s!"Address {hex address.toNat} does not fit in a 32-bit address space"
  | notPlaced => "Code buffer has not been placed at an address"
  | unsupported reason => s!"Unsupported platform: {reason}"

/-- Whether the failure means that the process is gone or its memory can no longer be reached. -/
def isProcessLost : Failure → Bool
  | exited | reading .. | writing .. => true
  | _ => false

end Failure

end LoadRemover
