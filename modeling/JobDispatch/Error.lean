import JobDispatch.Job

/-!
# Reasons for refusal

The operations of the dispatch core are refused for these causes. `DispatchError.message` has the
wording of each.
-/

namespace JobDispatch

/-- Why a change of state is refused. -/
inductive Rejection
  /-- The job is not in the state that the request expects. -/
  | stateMismatch (actual : JobState)
  /-- The edge is not part of the lifecycle. -/
  | edgeNotAllowed
  /-- The edge is reserved for a worker's claim. -/
  | needsClaim
deriving DecidableEq

def Rejection.text : Rejection → String
  | stateMismatch actual => "job is currently " ++ actual.text
  | edgeNotAllowed => "edge not allowed"
  | needsClaim => "edge requires a worker claim"

inductive DispatchError
  | invalidTransition (job : JobId) (edge : Edge) (reason : Rejection)
  /-- The edge does not lead into or out of the queue. -/
  | invalidQueueTransition (edge : Edge)
  | duplicateEntry (job : JobId)
  | duplicateJob (job : JobId)
  | jobNotFound (job : JobId)
  | leaseTaken (key : String)
  /-- The lease would end after the last point in time. -/
  | leaseOutOfRange (key : String)
deriving DecidableEq

instance decidableEqExcept {ε α : Type} [DecidableEq ε] [DecidableEq α] :
    DecidableEq (Except ε α)
  | .error d, .error e => decidable_of_iff (d = e) (by simp)
  | .ok a, .ok b => decidable_of_iff (a = b) (by simp)
  | .error _, .ok _ => .isFalse nofun
  | .ok _, .error _ => .isFalse nofun

namespace DispatchError

def message : DispatchError → String
  | invalidTransition job edge reason =>
    "invalid transition for job " ++ job.text ++ ": " ++ edge.source.text ++ " -> " ++
      edge.target.text ++ " (" ++ reason.text ++ ")"
  | invalidQueueTransition edge =>
    "invalid queue transition: " ++ edge.source.text ++ " -> " ++ edge.target.text
  | duplicateEntry job => "duplicate queue entry for job " ++ job.text
  | duplicateJob job => "duplicate job: " ++ job.text
  | jobNotFound job => "job not found: " ++ job.text
  | leaseTaken key => "lease already taken: " ++ key
  | leaseOutOfRange key =>
    "lease timeout for " ++ key ++ " runs past the representable time range"

/-- The caller may skip the cycle instead of failing. -/
def isHeldLease : DispatchError → Bool
  | leaseTaken _ => true
  | _ => false

end DispatchError

end JobDispatch
