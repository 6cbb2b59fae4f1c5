import JobDispatch.Metrics
import JobDispatch.Registry
import JobDispatch.Sweep.Record
import JobDispatch.Time.Rfc3339

/-!
# Log events

What the operations write to the log: for each event its level, its message and its fields. A field
holds a text, a number or a truth value.
-/

namespace JobDispatch

inductive Level
  | debug
  | info
  | warn
  | error
deriving DecidableEq

def Level.text : Level → String
  | debug => "DEBUG"
  | info => "INFO"
  | warn => "WARN"
  | error => "ERROR"

inductive FieldValue
  | text (s : String)
  | number (n : Nat)
  | flag (b : Bool)
deriving DecidableEq

inductive Event
  | transitionApplied (job : JobId) (edge : Edge) (effect : QueueChange)
  | transitionRefused (job : JobId) (edge : Edge) (error : DispatchError)
  | alreadyQueued (job : JobId) (state : JobState)
  | missingEntry (job : JobId) (target : JobState)
  | jobClaimed (job : JobId) (worker : WorkerId)
  | releaseUnknown (worker : WorkerId)
  | releaseIdle (worker : WorkerId)
  | workerRegistered (worker : WorkerId) (tags : Tags) (capacity : UInt32)
  | notQueued (job : JobId)
  | noEligibleWorker (job : JobId) (tags : Tags)
  | dispatched (job : JobId) (worker : WorkerId) (project : ProjectId)
  | leftQueue (job : JobId)
  | claimLost (job : JobId) (worker : WorkerId) (obstacle : Obstacle)
  | registrationKept (job : JobId) (stored requested : Tags)
  | inlineTickFailed (job : JobId) (error : DispatchError)
  | heartbeatDispatched (worker : WorkerId) (claims : Nat)
  | heartbeatTickFailed (worker : WorkerId) (error : DispatchError)
  | neverFinished (cursor? : Option Cursor) (startedAt? : Option Timestamp)
  | resuming (cursor? : Option Cursor)
  | batchCap (batches : Nat)
  | tickFailed (error : DispatchError)
  | leaseOverrun (key : String) (expiresAt : Timestamp)
  | sweepFinished (report : PassReport)
  | loopStarted (interval : Span)
  | loopStopped
  | cycleSkipped
  | sweepFailed (error : DispatchError)
  | consistent
  | inconsistent (pending entries : Nat)
  | metric (m : Metric)
deriving DecidableEq

/-! ### Texts of field values -/

def Departure.title : Departure → String
  | claimed => "Claimed"
  | unclaimed => "Unclaimed"

def Obstacle.title : Obstacle → String
  | unknownWorker => "UnknownWorker"
  | stale => "Stale"
  | noCapacity => "NoCapacity"

def optionText (text : Option String) : String :=
  match text with
  | none => "None"
  | some s => "Some(" ++ s ++ ")"

def cursorText (cursor? : Option Cursor) : String :=
  optionText (cursor?.map fun c => "QueueCursor(" ++ toString c.sequence.toNat ++ ")")

/-- The fields by which a metric is logged. -/
def Metric.fields : Metric → List (String × FieldValue)
  | queuePush => [("metric", .text "queue_push")]
  | queuePop kind => [("metric", .text "queue_pop"), ("kind", .text kind.title)]
  | activeWorkers count => [("metric", .text "active_workers"), ("count", .number count.toNat)]
  | workerTick worker => [("metric", .text "worker_tick"), ("worker_id", .text worker.text)]
  | duplicateEntry => [("metric", .text "duplicate_entry")]
  | consistencyViolation => [("metric", .text "consistency_violation")]

namespace Event

def level : Event → Level
  | alreadyQueued .. | missingEntry .. | inlineTickFailed .. | heartbeatTickFailed ..
  | tickFailed .. | sweepFailed .. | inconsistent .. => .error
  | neverFinished .. | leaseOverrun .. => .warn
  | jobClaimed .. | workerRegistered .. | dispatched .. | resuming .. | sweepFinished ..
  | loopStarted .. | loopStopped | consistent => .info
  | _ => .debug

def message : Event → String
  | transitionApplied .. => "Transition applied"
  | transitionRefused .. => "Transition refused"
  | alreadyQueued .. => "Job is already queued"
  | missingEntry .. => "Pending job had no queue entry"
  | jobClaimed .. => "Job claimed"
  | releaseUnknown .. => "Release for unknown worker ignored"
  | releaseIdle .. => "Release with no running jobs ignored"
  | workerRegistered .. => "Worker registered"
  | notQueued .. => "Tick for job that is not queued"
  | noEligibleWorker .. => "No eligible worker"
  | dispatched .. => "Dispatched job"
  | leftQueue .. => "Entry left the queue during tick"
  | claimLost .. => "Claim lost, trying next worker"
  | registrationKept .. => "Enqueue keeps the registered project and tags"
  | inlineTickFailed .. => "Inline tick failed"
  | heartbeatDispatched .. => "Heartbeat dispatched queued jobs"
  | heartbeatTickFailed .. => "Heartbeat tick failed"
  | neverFinished .. => "Previous sweep never finished, resuming from its checkpoint"
  | resuming .. => "Resuming unfinished sweep"
  | batchCap .. => "Sweep reached batch cap"
  | tickFailed .. => "Tick failed during sweep"
  | leaseOverrun .. => "Sweep lease expired before release"
  | sweepFinished .. => "Sweep finished"
  | loopStarted .. => "Sweep loop started"
  | loopStopped => "Sweep loop stopped"
  | cycleSkipped => "Sweep lease held elsewhere, skipping cycle"
  | sweepFailed .. => "Sweep failed"
  | consistent => "Queue consistent with job states"
  | inconsistent .. => "Queue out of sync with job states"
  | metric .. => "Metric"

def jobField (job : JobId) : String × FieldValue := ("job_id", .text job.text)

def workerField (worker : WorkerId) : String × FieldValue := ("worker_id", .text worker.text)

def errorField (error : DispatchError) : String × FieldValue := ("error", .text error.message)

def edgeFields (edge : Edge) : List (String × FieldValue) :=
  [("from", .text edge.source.text), ("to", .text edge.target.text)]

def fields : Event → List (String × FieldValue)
  | transitionApplied job edge effect =>
    jobField job :: edgeFields edge ++ [("effect", .text effect.text)]
  | transitionRefused job edge error => jobField job :: edgeFields edge ++ [errorField error]
  | alreadyQueued job state => [jobField job, ("state", .text state.text)]
  | missingEntry job target => [jobField job, ("to", .text target.text)]
  | jobClaimed job worker => [jobField job, workerField worker]
  | releaseUnknown worker => [workerField worker]
  | releaseIdle worker => [workerField worker]
  | workerRegistered worker tags capacity =>
    [workerField worker, ("tags", .text tags.text), ("capacity", .number capacity.toNat)]
  | notQueued job => [jobField job]
  | noEligibleWorker job tags => [jobField job, ("tags", .text tags.text)]
  | dispatched job worker project =>
    [jobField job, workerField worker, ("project_id", .text project.text)]
  | leftQueue job => [jobField job]
  | claimLost job worker obstacle =>
    [jobField job, workerField worker, ("conflict", .text obstacle.title)]
  | registrationKept job stored requested =>
    [jobField job, ("stored_tags", .text stored.text), ("requested_tags", .text requested.text)]
  | inlineTickFailed job error => [jobField job, errorField error]
  | heartbeatDispatched worker claims => [workerField worker, ("claimed", .number claims)]
  | heartbeatTickFailed worker error => [workerField worker, errorField error]
  | neverFinished cursor? startedAt? =>
    [("cursor", .text (cursorText cursor?)),
      ("started_at", .text (optionText (startedAt?.map Timestamp.text)))]
  | resuming cursor? => [("cursor", .text (cursorText cursor?))]
  | batchCap batches => [("batches", .number batches)]
  | tickFailed error => [errorField error]
  | leaseOverrun key expiresAt =>
    [("key", .text key), ("expires_at", .text expiresAt.proseText)]
  | sweepFinished r =>
    [("batches", .number r.batches), ("ticked", .number r.ticked), ("claimed", .number r.claimed),
      ("no_eligible", .number r.noEligible), ("already_claimed", .number r.alreadyClaimed),
      ("errors", .number r.errors), ("resumed", .flag r.resumed), ("completed", .flag r.completed)]
  | loopStarted interval => [("interval", .text interval.logText)]
  | loopStopped => []
  | cycleSkipped => []
  | sweepFailed error => [errorField error]
  | consistent => []
  | inconsistent pending entries =>
    [("pending_without_entry", .number pending), ("entries_without_pending", .number entries)]
  | metric m => m.fields

end Event

end JobDispatch
