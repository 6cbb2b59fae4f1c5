import JobDispatch.Lifecycle

/-!
# Ticks

A tick takes a queued job, ranks the workers that may take it and offers the job to each in turn
until a claim holds. A claim that is lost to another is no error: the next worker is tried, or the
job is left to whoever has it. A worker that reports in is offered the queued jobs it could take.
-/

namespace JobDispatch

open Program (request)

def currentCriteria (untaggedOnly : Bool) : Program Criteria := do
  let now ← request .clock
  let staleAfter ← request .staleAfter
  pure ⟨now, staleAfter, untaggedOnly⟩

/-- The workers that an entry is offered to. -/
def rankWorkers (untaggedOnly : Bool) (e : QueueEntry) : Program (List Worker) := do
  let candidates ← request (.available e.project)
  let criteria ← currentCriteria untaggedOnly
  pure (rank e candidates criteria)

/-- Offers an entry to workers in turn. The list is a snapshot: a worker that can no longer take the
job is passed over. -/
def offerTo (e : QueueEntry) : List Worker → Program (Except DispatchError TickOutcome)
  | [] => pure (.ok .noEligibleWorker)
  | w :: ws => do
    request (.count (.workerTick w.id))
    match ← claim e.job w.id with
    | .error err => pure (.error err)
    | .ok (.claimed worker claimedAt) =>
      request (.log (.dispatched e.job worker e.project))
      pure (.ok (.claimed ⟨e.job, worker, claimedAt⟩))
    | .ok .notQueued =>
      request (.log (.leftQueue e.job))
      pure (.ok .alreadyClaimed)
    | .ok (.blocked reason) =>
      request (.log (.claimLost e.job w.id reason))
      offerTo e ws

/-- Ticks an entry that was read from the queue, which may have left it since. -/
def offerEntry (untaggedOnly : Bool) (e : QueueEntry) :
    Program (Except DispatchError TickOutcome) := do
  let ranked ← rankWorkers untaggedOnly e
  if ranked.isEmpty then
    request (.log (.noEligibleWorker e.job e.tags))
    pure (.ok .noEligibleWorker)
  else offerTo e ranked

/-- Ticks a job. Nothing happens to a job that is not queued. -/
def tick (untaggedOnly : Bool) (job : JobId) : Program (Except DispatchError TickOutcome) := do
  match ← request (.lookup job) with
  | .error e => pure (.error e)
  | .ok none =>
    request (.log (.notQueued job))
    pure (.ok .alreadyClaimed)
  | .ok (some e) => offerEntry untaggedOnly e

/-! ### Walks through the queue -/

/-- How a walk goes on after an entry. -/
inductive Visit (σ : Type)
  | next (s : σ)
  | stop (s : σ)
  | fail (e : DispatchError)

def walkPage {σ : Type} (visit : QueueEntry → σ → Program (Visit σ)) :
    List QueueEntry → σ → Program (Visit σ)
  | [], s => pure (.next s)
  | e :: es, s => do
    match ← visit e s with
    | .next s => walkPage visit es s
    | .stop s => pure (.stop s)
    | .fail err => pure (.fail err)

/-- Visits the entries of the queue after a cursor, page by page. -/
def walkQueue {σ : Type} (limit : UInt64) (visit : QueueEntry → σ → Program (Visit σ))
    (after : Option Cursor) (s : σ) : Program (Except DispatchError σ) := do
  match ← request (.scan limit after) with
  | .error e => pure (.error e)
  | .ok page =>
    match ← walkPage visit page.entries s with
    | .fail e => pure (.error e)
    | .stop s => pure (.ok s)
    | .next s =>
      match page.next? with
      | some ⟨next, _⟩ => walkQueue limit visit (some next) s
      | none => pure (.ok s)
termination_by Cursor.room after
decreasing_by exact Cursor.room_lt (by assumption)

/-- Ticks an entry if the worker that reported in could take it, and counts the claims. The walk
ends once the worker is not available. -/
def visitFor (untaggedOnly : Bool) (worker : WorkerId) (e : QueueEntry) (claims : Nat) :
    Program (Visit Nat) := do
  match ← request (.worker worker) with
  | none => pure (.stop claims)
  | some w =>
    let criteria ← currentCriteria untaggedOnly
    if !w.isReady criteria.now criteria.staleAfter then pure (.stop claims)
    else if (rank e [w] criteria).isEmpty then pure (.next claims)
    else
      match ← offerEntry untaggedOnly e with
      | .error err => pure (.fail err)
      | .ok result => pure (.next (if result.isAssigned then claims + 1 else claims))

/-- Ticks the queued jobs that a worker could take, as long as it is available. Each job still goes
to the first worker in its ranking, which may be another. Gives the number of claims. -/
def serveWorker (untaggedOnly : Bool) (worker : WorkerId) (limit : UInt64) :
    Program (Except DispatchError Nat) :=
  walkQueue limit (visitFor untaggedOnly worker) none 0

end JobDispatch
