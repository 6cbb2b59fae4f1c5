import JobDispatch.Sweep

/-!
# The dispatch engine

The operations that a service calls, under one configuration. In the modes that tick on enqueueing,
a job that becomes pending is offered to workers at once, and so are the waiting jobs when a worker
reports in.
-/

namespace JobDispatch.Engine

open Program (request)

def initial (c : Config) (sink : Sink) (now : Timestamp) : World :=
  .initial c.staleThreshold.delta sink now

def register (draft : JobDraft) : Program (Except DispatchError Job) := do
  match ← request (.addJob draft) with
  | some job => pure (.ok job)
  | none => pure (.error (.duplicateJob draft.id))

/-- The tick that follows a transition into the queue. An error ends the tick and nothing else. -/
def offerAfter (c : Config) (outcome : AppliedEdge) :
    Program (Option TickOutcome) :=
  if outcome.effect != .enqueue || !c.mode.atOnce then pure none
  else do
    match ← JobDispatch.tick c.untaggedOnly outcome.job with
    | .ok result => pure (some result)
    | .error e =>
      request (.log (.inlineTickFailed outcome.job e))
      pure none

/-- A transition, and the tick after it. -/
def changeState (c : Config) (job : JobId) (edge : Edge) :
    Program (Except DispatchError (AppliedEdge × Option TickOutcome)) := do
  match ← JobDispatch.changeState job edge with
  | .error e => pure (.error e)
  | .ok outcome =>
    let dispatch ← offerAfter c outcome
    pure (.ok (outcome, dispatch))

structure Verdict where
  applied : Bool
  /-- Why the transition was refused. -/
  reason? : Option DispatchError
  effect : QueueChange
  /-- What came of the tick, if there was one. -/
  dispatch? : Option TickOutcome
deriving DecidableEq

/-- A transition that is reported and never fails. -/
def reportTransition (c : Config) (job : JobId) (edge : Edge) : Program Verdict := do
  match ← changeState c job edge with
  | .ok (outcome, dispatch?) => pure ⟨true, none, outcome.effect, dispatch?⟩
  | .error e =>
    request (.log (.transitionRefused job edge e))
    pure ⟨false, some e, .none, none⟩

def recordHeartbeat (h : Heartbeat) : Program Worker := do
  let (worker, isNew) ← request (.heartbeat h)
  if isNew then request (.log (.workerRegistered worker.id worker.tags worker.capacity))
  pure worker

/-- Takes over a heartbeat and offers the worker what it could take. -/
def heartbeat (c : Config) (h : Heartbeat) : Program Worker := do
  let worker ← recordHeartbeat h
  if !c.mode.atOnce then pure worker
  else
    match ← serveWorker c.untaggedOnly worker.id c.batchSize with
    | .ok 0 => pure worker
    | .ok claims =>
      request (.log (.heartbeatDispatched worker.id claims))
      let current? ← request (.worker worker.id)
      pure (current?.getD worker)
    | .error e =>
      request (.log (.heartbeatTickFailed worker.id e))
      pure worker

/-- Registers a job unless it is registered, in which case its project and tags stay as they are. -/
def ensureRegistered (draft : JobDraft) : Program Unit := do
  match ← request (.addJob draft) with
  | some _ => pure ()
  | none =>
    match ← request (.readJob draft.id) with
    | none => pure ()
    | some stored =>
      if stored.project ≠ draft.project ∨ stored.tags ≠ draft.tags then
        request (.log (.registrationKept draft.id stored.tags draft.tags))

def enqueueEdge : Edge := ⟨.created, .pending⟩

def cancelEdge : Edge := ⟨.pending, .canceled⟩

/-- Queues a job, registering it if it is new. -/
def enqueue (c : Config) (draft : JobDraft) :
    Program (Except DispatchError (Option TickOutcome)) := do
  ensureRegistered draft
  match ← changeState c draft.id enqueueEdge with
  | .ok (_, dispatch?) => pure (.ok dispatch?)
  | .error e => pure (.error e)

/-- Cancels a pending job. -/
def dequeue (job : JobId) : Program (Except DispatchError AppliedEdge) :=
  JobDispatch.changeState job cancelEdge

def tick (c : Config) (job : JobId) : Program (Except DispatchError TickOutcome) :=
  JobDispatch.tick c.untaggedOnly job

def sweepBy (rota : Rota) (c : Config) : Program (Except DispatchError PassReport) :=
  JobDispatch.sweepBy rota c.sweepPlan c.untaggedOnly

def sweep (c : Config) : Program (Except DispatchError PassReport) :=
  JobDispatch.sweep c.sweepPlan c.untaggedOnly

/-! ### The audit -/

/-- What the comparison of jobs and queue found. -/
structure Audit where
  pendingWithoutEntry : List JobId
  /-- Jobs with an entry that are not pending or not registered. -/
  entriesWithoutPending : List JobId
deriving DecidableEq

namespace Audit

def empty : Audit := ⟨[], []⟩

def isClean (r : Audit) : Bool :=
  r.pendingWithoutEntry.isEmpty && r.entriesWithoutPending.isEmpty

def add (r : Audit) (job : JobId) : Discrepancy → Audit
  | .pendingWithoutEntry => { r with pendingWithoutEntry := r.pendingWithoutEntry ++ [job] }
  | .entryWithoutPending => { r with entriesWithoutPending := r.entriesWithoutPending ++ [job] }

end Audit

def auditJobs : List JobId → Audit → Program (Except DispatchError Audit)
  | [], report => pure (.ok report)
  | job :: jobs, report => do
    match ← auditJob job with
    | .error e => pure (.error e)
    | .ok none => auditJobs jobs report
    | .ok (some discrepancy) => auditJobs jobs (report.add job discrepancy)

def auditEntry (e : QueueEntry) (report : Audit) :
    Program (Visit Audit) := do
  match ← request (.readJob e.job) with
  | some _ => pure (.next report)
  | none => pure (.next (report.add e.job .entryWithoutPending))

/-- Compares all jobs with the queue: first the registered jobs, then the entries. -/
def verify (c : Config) : Program (Except DispatchError Audit) := do
  let jobs ← request .jobIds
  match ← auditJobs jobs .empty with
  | .error e => pure (.error e)
  | .ok report =>
    match ← walkQueue c.batchSize auditEntry none report with
    | .error e => pure (.error e)
    | .ok report =>
      if report.isClean then request (.log .consistent)
      else
        request (.log
          (.inconsistent report.pendingWithoutEntry.length report.entriesWithoutPending.length))
      pure (.ok report)

end JobDispatch.Engine
