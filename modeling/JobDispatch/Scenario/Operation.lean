import JobDispatch.Engine

/-!
# Single operations of a scenario

A scenario is a script for the dispatch core. Its operations are those of the engine and those of
the parts that the engine is made of, which can be called one by one to set up states that the
engine alone does not reach. Each operation is a program that ends in a reply.
-/

namespace JobDispatch.Scenario

open Program (request)

/-- The time that a step refers to. -/
inductive When
  | fixed (time : Timestamp)
  /-- So many nanoseconds after the clock. -/
  | fromNow (delta : Int)
deriving DecidableEq

/-- The time meant, if it is one that can be represented. -/
def When.resolve : When → Program (Option Timestamp)
  | fixed time => pure (some time)
  | fromNow delta => do
    let now ← request .clock
    pure (now.add? delta)

/-- What a step comes to. -/
inductive Reply
  | done
  | truth (b : Bool)
  | number (n : Nat)
  | time (t : Timestamp)
  /-- A difference of times in nanoseconds. -/
  | delta (nanos : Int)
  | receipt (t : Receipt)
  | entry (e? : Option QueueEntry)
  | page (entries : List QueueEntry) (next? : Option Cursor)
  | counts (t : Table ProjectId Nat)
  | lease (t : Lease)
  | report (r : PassReport)
  | progress (p : SweepRecord)
  | settings (s : SweepPlan)
  /-- Whether the periodic sweep ran, and the progress after it. -/
  | cycles (ran : Bool) (p : SweepRecord)
  | counters (c : Counters)
  /-- Metrics that were logged. -/
  | logged (ms : List Metric)
  /-- Metrics that were received. -/
  | received (ms : List Metric)
  | config (c : Config)
  | mode (m : Trigger)
  | job (j? : Option Job)
  | jobIds (ids : List JobId)
  | worker (w? : Option Worker)
  | workers (ws : List Worker)
  | outcome (o : AppliedEdge)
  | transition (o : AppliedEdge) (dispatch? : Option TickOutcome)
  | transitionReport (r : Engine.Verdict)
  | dispatch (r? : Option TickOutcome)
  | tick (r : TickOutcome)
  | claim (o : Handover)
  /-- What kept a place of a worker from being taken, if anything did. -/
  | obstacle (o? : Option Obstacle)
  | consistency (r : Engine.Audit)
  | refused (e : DispatchError)
  /-- The step makes no sense here: it names what is not there, or a time out of range. -/
  | invalid
  /-- The step has a malformed identifier. -/
  | invalidIdentifier
  /-- The clock cannot go so far. -/
  | outOfTime
deriving DecidableEq

def Reply.ofResult {α : Type} (reply : α → Reply) : Except DispatchError α → Reply
  | .ok a => reply a
  | .error e => .refused e

inductive Operation
  | clock
  -- the queue
  | push (draft : JobDraft) (time : When)
  | pop (job : JobId)
  | get (job : JobId)
  | contains (job : JobId)
  | scan (limit : UInt64) (after : Option Cursor)
  | length
  | counts
  -- the sweep
  | sweep
  | progress
  | settings
  -- the sink
  | record (m : Metric)
  -- jobs and workers
  | register (draft : JobDraft)
  | job (id : JobId)
  | jobIds
  | worker (id : WorkerId)
  | workers
  | available (project : ProjectId)
  | freshCount
  | staleAfter
  /-- A heartbeat whose time of contact is `time`. -/
  | recordHeartbeat (h : Heartbeat) (time : When)
  | takePlace (worker : WorkerId)
  | giveBack (worker : WorkerId)
  -- changes of state, claims and ticks
  /-- A change of state without the tick that the engine adds. -/
  | changeOnly (job : JobId) (edge : Edge)
  | claim (job : JobId) (worker : WorkerId)
  | pushEntry (job : JobId) (edge : Edge) (time : When)
  | popEntry (job : JobId) (edge : Edge) (kind : Departure)
  | tickJob (job : JobId)
  | offerEntry (e : QueueEntry)
  | serveWorker (worker : WorkerId) (limit : UInt64)
  -- the engine
  | config
  | mode
  | changeState (job : JobId) (edge : Edge)
  | reportTransition (job : JobId) (edge : Edge)
  /-- A heartbeat whose time of contact is `time`. -/
  | heartbeat (h : Heartbeat) (time : When)
  | enqueue (draft : JobDraft)
  | dequeue (job : JobId)
  | tick (job : JobId)
  | verify
deriving DecidableEq

def timed (time : When) (next : Timestamp → Program Reply) : Program Reply := do
  match ← time.resolve with
  | none => pure .invalid
  | some t => next t

def withJob (id : JobId) (next : Job → Program Reply) : Program Reply := do
  match ← request (.readJob id) with
  | none => pure .invalid
  | some job => next job

def byId (ws : List Worker) : List Worker := rankBy (fun a b => a.id.atMost b.id) ws

def Operation.program (c : Config) : Operation → Program Reply
  | clock => return .time (← request .clock)
  | push draft time => timed time fun t =>
    return .ofResult .receipt (← request (.push draft.id draft.project draft.tags t))
  | pop id => return .ofResult .truth (← request (.pop id))
  | get id => return .ofResult .entry (← request (.lookup id))
  | contains id => return .ofResult (fun e? => .truth e?.isSome) (← request (.lookup id))
  | scan limit after =>
    return .ofResult (fun page => .page page.entries (page.next?.map Subtype.val))
      (← request (.scan limit after))
  | length => return .ofResult .number (← request .queueLength)
  | counts => return .ofResult .counts (← request .queueCounts)
  | sweep => return .ofResult .report (← Engine.sweep c)
  | progress => return .progress (← request .progress)
  | settings => return .settings c.sweepPlan
  | record m => do
    request (.count m)
    pure .done
  | register draft => return .ofResult (fun j => .job (some j)) (← Engine.register draft)
  | job id => return .job (← request (.readJob id))
  | jobIds => return .jobIds (rankBy JobId.atMost (← request .jobIds))
  | worker id => return .worker (← request (.worker id))
  | workers => return .workers (byId (← request .workers))
  | available project => return .workers (byId (← request (.available project)))
  | freshCount => return .number (← request .freshCount)
  | staleAfter => return .delta (← request .staleAfter)
  | recordHeartbeat h time => timed time fun t =>
    return .worker (some (← Engine.recordHeartbeat { h with contactTime := t }))
  | takePlace id => return .obstacle (← request (.takePlace id))
  | giveBack id => return .truth (← givePlace id)
  | changeOnly id edge => return .ofResult .outcome (← JobDispatch.changeState id edge)
  | claim id w => return .ofResult .claim (← JobDispatch.claim id w)
  | pushEntry id edge time => timed time fun t => withJob id fun j =>
    return .ofResult .receipt (← JobDispatch.pushEntry j edge t)
  | popEntry id edge kind => withJob id fun j =>
    return .ofResult .truth (← JobDispatch.popEntry j edge kind)
  | tickJob id =>
    return .ofResult (fun r => .dispatch (some r)) (← JobDispatch.tick c.untaggedOnly id)
  | offerEntry e =>
    return .ofResult (fun r => .dispatch (some r)) (← JobDispatch.offerEntry c.untaggedOnly e)
  | serveWorker id limit =>
    return .ofResult .number (← JobDispatch.serveWorker c.untaggedOnly id limit)
  | config => return .config c
  | mode => return .mode c.mode
  | changeState id edge =>
    return .ofResult (fun r => .transition r.1 r.2) (← Engine.changeState c id edge)
  | reportTransition id edge => return .transitionReport (← Engine.reportTransition c id edge)
  | heartbeat h time => timed time fun t =>
    return .worker (some (← Engine.heartbeat c { h with contactTime := t }))
  | enqueue draft => return .ofResult .dispatch (← Engine.enqueue c draft)
  | dequeue id => return .ofResult .outcome (← Engine.dequeue id)
  | tick id => return .ofResult .tick (← Engine.tick c id)
  | verify => return .ofResult .consistency (← Engine.verify c)

end JobDispatch.Scenario
