import JobDispatch.World

/-!
# Changes of state and claims

A job changes state together with its entry in the queue, while its record is locked: a transition
pushes or removes the entry, and a claim removes it and takes a place of a worker. Of several
requests for one job only one finds the state it expects. A change that fails leaves the record as
it was.
-/

namespace JobDispatch

open Program (request)

def pushEntry (job : Job) (edge : Edge) (now : Timestamp) :
    Program (Except DispatchError Receipt) :=
  if !edge.entersQueue then pure (.error (.invalidQueueTransition edge))
  else do
    match ← request (.push job.id job.project job.tags now) with
    | .ok receipt =>
      request (.count .queuePush)
      pure (.ok receipt)
    | .error (.duplicateEntry id) =>
      request (.log (.alreadyQueued job.id job.state))
      request (.count .duplicateEntry)
      pure (.error (.duplicateEntry id))
    | .error e => pure (.error e)

/-- Removes the entry of a job that ceases to be pending. Tells whether there was one. -/
def popEntry (job : Job) (edge : Edge) (kind : Departure) :
    Program (Except DispatchError Bool) :=
  if !edge.leavesQueue then pure (.error (.invalidQueueTransition edge))
  else do
    match ← request (.pop job.id) with
    | .error e => pure (.error e)
    | .ok true =>
      request (.count (.queuePop kind))
      pure (.ok true)
    | .ok false =>
      request (.log (.missingEntry job.id edge.target))
      request (.count .consistencyViolation)
      pure (.ok false)

/-- Gives a place of a worker back. Tells whether it was taken. -/
def givePlace (worker : WorkerId) : Program Bool := do
  match ← request (.release worker) with
  | .released => pure true
  | .unknownWorker =>
    request (.log (.releaseUnknown worker))
    pure false
  | .idle =>
    request (.log (.releaseIdle worker))
    pure false

/-- What an applied transition did. -/
structure AppliedEdge where
  job : JobId
  edge : Edge
  effect : QueueChange
  /-- The receipt for the entry if the job was queued. -/
  receipt? : Option Receipt
deriving DecidableEq

/-- The effect of a transition on the queue: the record with the time of queueing that goes with
it, and the receipt for a new entry. -/
def applyEffect (job : Job) (edge : Edge) (now : Timestamp) :
    Program (Except DispatchError (Job × Option Receipt)) :=
  match edge.queueChange with
  | .enqueue => do
    match ← pushEntry job edge now with
    | .ok receipt => pure (.ok ({ job with enqueuedAt? := some now }, some receipt))
    | .error e => pure (.error e)
  | .dequeueUnclaimed => do
    match ← popEntry job edge .unclaimed with
    | .ok _ => pure (.ok ({ job with enqueuedAt? := none }, none))
    | .error e => pure (.error e)
  | .dequeueClaimed | .none => pure (.ok (job, none))

/-- Takes a finished job from the worker that holds it. -/
def letGo (job : Job) : Program Job :=
  match job.claimedBy? with
  | none => pure job
  | some worker => do
    discard (givePlace worker)
    pure { job with claimedBy? := none }

/-- Changes the state of a job together with its entry in the queue. The edge from `pending` to
`running` is left to claims. -/
def changeState (id : JobId) (edge : Edge) :
    Program (Except DispatchError AppliedEdge) :=
  let refuse (reason : Rejection) : Except DispatchError AppliedEdge :=
    .error (.invalidTransition id edge reason)
  if !edge.inLifecycle then pure (refuse .edgeNotAllowed)
  else if edge.needsClaim then pure (refuse .needsClaim)
  else do
    match ← request (.lockJob id) with
    | none => pure (.error (.jobNotFound id))
    | some job =>
      if job.state != edge.source then
        request (.unlockJob id)
        pure (refuse (.stateMismatch job.state))
      else
        let now ← request .clock
        match ← applyEffect job edge now with
        | .error e =>
          request (.unlockJob id)
          pure (.error e)
        | .ok (job, receipt?) =>
          let job ← if edge.target.isFinal then letGo job else pure job
          request (.storeJob { job with state := edge.target, updatedAt := now })
          request (.log (.transitionApplied id edge edge.queueChange))
          pure (.ok ⟨id, edge, edge.queueChange, receipt?⟩)

/-- What came of claiming a job for one worker. -/
inductive Handover
  | claimed (worker : WorkerId) (claimedAt : Timestamp)
  /-- The job left the queue before. -/
  | notQueued
  /-- The worker cannot take the job; another may. -/
  | blocked (reason : Obstacle)
deriving DecidableEq

def claimEdge : Edge := ⟨.pending, .running⟩

/-- Hands a queued job to a worker: takes a place of the worker, removes the entry and lets the job
run. If the entry cannot be removed the place is given back. -/
def claim (id : JobId) (worker : WorkerId) : Program (Except DispatchError Handover) := do
  match ← request (.lockJob id) with
  | none => pure (.ok .notQueued)
  | some job =>
    if job.state != .pending then
      request (.unlockJob id)
      pure (.ok .notQueued)
    else
      match ← request (.lookup id) with
      | .error e =>
        request (.unlockJob id)
        pure (.error e)
      | .ok none =>
        request (.unlockJob id)
        pure (.ok .notQueued)
      | .ok (some _) =>
        match ← request (.takePlace worker) with
        | some reason =>
          request (.unlockJob id)
          pure (.ok (.blocked reason))
        | none =>
          match ← popEntry job claimEdge .claimed with
          | .ok true =>
            let now ← request .clock
            request (.storeJob
              { job with
                state := .running
                claimedBy? := some worker
                enqueuedAt? := none
                updatedAt := now })
            request (.log (.jobClaimed id worker))
            pure (.ok (.claimed worker now))
          | .ok false =>
            discard (givePlace worker)
            request (.unlockJob id)
            pure (.ok .notQueued)
          | .error e =>
            discard (givePlace worker)
            request (.unlockJob id)
            pure (.error e)

/-- How a job and the queue disagree. -/
inductive Discrepancy
  /-- The job is pending and has no entry. -/
  | pendingWithoutEntry
  /-- The job has an entry and is not pending. -/
  | entryWithoutPending
deriving DecidableEq

def auditJob (id : JobId) : Program (Except DispatchError (Option Discrepancy)) := do
  match ← request (.lockJob id) with
  | none => pure (.ok none)
  | some job =>
    let found ← request (.lookup id)
    request (.unlockJob id)
    match found with
    | .error e => pure (.error e)
    | .ok entry? =>
      match job.state.isPending, entry?.isSome with
      | true, false => pure (.ok (some .pendingWithoutEntry))
      | false, true => pure (.ok (some .entryWithoutPending))
      | _, _ => pure (.ok none)

end JobDispatch
