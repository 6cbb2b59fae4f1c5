import JobDispatch.Proofs.Orderly

/-!
The critical sections of the engine as calls: registering a job, taking over a heartbeat, changing
the state of a job and claiming one for a worker. Each is orderly, and its reply tells which edges
it has taken.
-/

namespace JobDispatch

open Program

inductive Call
  | register (draft : JobDraft)
  | heartbeat (h : Heartbeat)
  | change (job : JobId) (edge : Edge)
  | claim (job : JobId) (worker : WorkerId)
deriving DecidableEq

inductive Reply
  | registered (result : Except DispatchError Job)
  | recorded (worker : Worker)
  | changed (result : Except DispatchError AppliedEdge)
  | claimed (result : Except DispatchError Handover)
deriving DecidableEq

namespace Call

def program : Call → Program Reply
  | register draft => do return .registered (← Engine.register draft)
  | heartbeat h => do return .recorded (← Engine.recordHeartbeat h)
  | change job edge => do return .changed (← changeState job edge)
  | claim job worker => do return .claimed (← JobDispatch.claim job worker)

/-- The edges that a call has taken once it has replied. -/
def edges : Call → Reply → List (JobId × Edge)
  | change job edge, .changed result => changedEdges job edge result
  | claim job _, .claimed result => claimedEdges job result
  | _, _ => []

lemma program_orderly (c : Call) :
    c.program.Orderly (fun reply f => f = ⟨none, c.edges reply⟩) .start := by
  cases c with
  | register draft =>
    intro job?
    cases job? <;> rfl
  | heartbeat h =>
    rintro ⟨worker, isNew⟩
    cases isNew
    · rfl
    · exact fun _ => rfl
  | change job edge =>
    refine (orderly_bind _ _ _ _).2 ((changeState_orderly job edge []).mono fun result f hf => ?_)
    rw [hf, List.append_nil]
    rfl
  | claim job worker =>
    refine (orderly_bind _ _ _ _).2 ((claim_orderly job worker []).mono fun result f hf => ?_)
    rw [hf, List.append_nil]
    rfl

end Call

end JobDispatch
