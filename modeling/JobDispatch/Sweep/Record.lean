import JobDispatch.Config
import JobDispatch.Queue

/-!
# The state and the results of sweeps

A sweep goes through the queue page by page. The progress that passes share says where the current
sweep stands, so that a pass that was cut short is taken up again. Each pass gives a report.
-/

namespace JobDispatch

structure SweepPlan where
  interval : Span
  batchSize : UInt64
  concurrency : UInt64
  maxBatches? : Option UInt64
  leaseTimeout : Span
deriving DecidableEq

def Config.sweepPlan (c : Config) : SweepPlan where
  interval := c.interval
  batchSize := c.batchSize
  concurrency := c.concurrency
  maxBatches? := c.maxBatches?
  leaseTimeout := c.leaseTimeout

inductive SweepPhase
  /-- There was no pass yet. -/
  | idle
  /-- A pass is under way, or it was abandoned. -/
  | ongoing
  /-- A pass stopped early; the next one goes on from its cursor. -/
  | unfinished
  | completed
deriving DecidableEq

def SweepPhase.text : SweepPhase → String
  | idle => "idle"
  | ongoing => "ongoing"
  | unfinished => "unfinished"
  | completed => "completed"

structure SweepRecord where
  /-- The last entry of the last page that was dealt with. -/
  cursor? : Option Cursor
  phase : SweepPhase
  startedAt? : Option Timestamp
  updatedAt? : Option Timestamp
deriving DecidableEq

namespace SweepRecord

def initial : SweepRecord := ⟨none, .idle, none, none⟩

/-- The next pass goes on with an earlier one. -/
def resumes (p : SweepRecord) : Bool := p.phase == .ongoing || p.phase == .unfinished

def begin (p : SweepRecord) (now : Timestamp) : SweepRecord :=
  let p := if p.resumes then p else { p with cursor? := none, startedAt? := some now }
  { p with phase := .ongoing, updatedAt? := some now }

def notePlace (p : SweepRecord) (cursor? : Option Cursor) (phase : SweepPhase)
    (now : Timestamp) : SweepRecord :=
  { p with cursor?, phase, updatedAt? := some now }

end SweepRecord

/-- A job in the hands of a worker. -/
structure Assignment where
  job : JobId
  worker : WorkerId
  claimedAt : Timestamp
deriving DecidableEq

/-- What came of offering a job to workers. -/
inductive TickOutcome
  | claimed (claim : Assignment)
  /-- No worker could take the job, which stays in the queue. -/
  | noEligibleWorker
  /-- The job has left the queue. -/
  | alreadyClaimed
deriving DecidableEq

namespace TickOutcome

def assignment? : TickOutcome → Option Assignment
  | claimed claim => some claim
  | _ => none

def isAssigned (r : TickOutcome) : Bool := r.assignment?.isSome

end TickOutcome

structure PassReport where
  batches : Nat
  ticked : Nat
  claimed : Nat
  noEligible : Nat
  alreadyClaimed : Nat
  errors : Nat
  /-- The pass went on with an earlier one. -/
  resumed : Bool
  /-- The pass reached the end of the queue. -/
  completed : Bool
deriving DecidableEq

namespace PassReport

def start (resumed : Bool) : PassReport := ⟨0, 0, 0, 0, 0, 0, resumed, false⟩

def record (r : PassReport) (outcome : Except DispatchError TickOutcome) : PassReport :=
  let r := { r with ticked := r.ticked + 1 }
  match outcome with
  | .ok (.claimed _) => { r with claimed := r.claimed + 1 }
  | .ok .noEligibleWorker => { r with noEligible := r.noEligible + 1 }
  | .ok .alreadyClaimed => { r with alreadyClaimed := r.alreadyClaimed + 1 }
  | .error _ => { r with errors := r.errors + 1 }

end PassReport

end JobDispatch
