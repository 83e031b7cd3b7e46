import Mathlib.Tactic.Common

/-!
# EFI status codes

The status values the driver returns, tests for or receives. Every comparison the driver makes is
against one of the named codes; a code the firmware invents is `other`, and `warning` stands for
the codes whose top bit is clear, which `EFI_ERROR` does not count as errors.
-/

namespace TouchI2c

/-- `EFI_STATUS`. -/
inductive EfiStatus where
  | success
  | warning
  | invalidParameter
  | unsupported
  | notReady
  | deviceError
  | outOfResources
  | notFound
  | noMapping
  | noResponse
  | timeout
  | notStarted
  | other
  deriving DecidableEq, Repr

namespace EfiStatus

/-- `EFI_ERROR (Status)`. -/
def isError : EfiStatus → Bool
  | success | warning => false
  | _ => true

@[simp] theorem isError_success : success.isError = false := rfl

end EfiStatus

end TouchI2c
