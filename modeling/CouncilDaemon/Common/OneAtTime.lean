import Mathlib

/-!
# One at a time

The flags of a method marked `OneAtTime`: a call that finds its flag raised returns at once. A
method whose parameter is marked `OneAtTimeCallId` has a flag for each value of it, but the flag of
zero is the common one.
-/

namespace CouncilDaemon

structure OneAtTime where
  isExecuting : Bool := false
  /-- The ids whose entry in the map is `true`. -/
  isExecutingMap : List ℕ := []
  deriving DecidableEq

namespace OneAtTime

variable (flags : OneAtTime) (callId : Option ℕ)

/-- `callId && isExecutingMap.get(callId) || isExecuting`. -/
def busy : Bool :=
  (callId.elim false fun id => id ≠ 0 && id ∈ flags.isExecutingMap) || flags.isExecuting

/-- The flags when a call begins. -/
def enter : OneAtTime :=
  if callId.elim false (· ≠ 0) then
    { flags with isExecutingMap := callId.getD 0 :: flags.isExecutingMap }
  else { flags with isExecuting := true }

/-- The flags when a call has ended, or has run into the timeout. -/
def leave : OneAtTime :=
  if callId.elim false (· ≠ 0) then
    { flags with isExecutingMap := flags.isExecutingMap.filter (· ≠ callId.getD 0) }
  else { flags with isExecuting := false }

end OneAtTime

end CouncilDaemon
