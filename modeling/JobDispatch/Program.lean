import JobDispatch.Event
import JobDispatch.Lease
import JobDispatch.Matching
import JobDispatch.Metrics
import JobDispatch.Queue.Fallible
import JobDispatch.Registry
import JobDispatch.Sweep.Record

/-!
# Operations as programs

An operation of the dispatch core is a sequence of requests to the parts that all operations share:
the table of jobs, the queue, the registry, the leases, the progress of the sweep, the clock and the
sinks. Each request is answered at one instant, and anything may happen between two of them. A
program says which request comes first and how to go on with each answer. One program can then be
run by itself, with other steps in between, or in turns with other programs.

A job is locked from the request that reads it for a change to the one that stores or gives back
the record. `runWith_bind` says that programs run one after the other hand on their state.
-/

namespace JobDispatch

inductive Request
  /-- Registers a job, unless its name is taken. -/
  | addJob (draft : JobDraft)
  /-- Reads the record of a job. -/
  | readJob (job : JobId)
  | jobIds
  /-- Reads the record of a job and keeps others from it. -/
  | lockJob (job : JobId)
  /-- Writes the record of a locked job and lets others at it. -/
  | storeJob (record : Job)
  /-- Lets others at a locked job whose record stays as it is. -/
  | unlockJob (job : JobId)
  | push (job : JobId) (project : ProjectId) (tags : Tags) (time : Timestamp)
  | pop (job : JobId)
  | lookup (job : JobId)
  | scan (limit : UInt64) (after : Option Cursor)
  | queueLength
  | queueCounts
  | heartbeat (h : Heartbeat)
  | worker (id : WorkerId)
  | workers
  | available (project : ProjectId)
  | freshCount
  | takePlace (worker : WorkerId)
  | release (worker : WorkerId)
  | staleAfter
  | clock
  | obtainLease (key : String) (ttl : Int) (now : Timestamp)
  | releaseLease (lease : Lease)
  | progress
  /-- Marks the sweep as under way and gives the progress before that. -/
  | beginPass (now : Timestamp)
  | notePlace (cursor? : Option Cursor) (phase : SweepPhase)
  | count (metric : Metric)
  | log (event : Event)

/-- What a request is answered with. -/
abbrev Request.Answer : Request → Type
  | addJob _ => Option Job
  | readJob _ => Option Job
  | jobIds => List JobId
  | lockJob _ => Option Job
  | storeJob _ => Unit
  | unlockJob _ => Unit
  | push .. => Except DispatchError Receipt
  | pop _ => Except DispatchError Bool
  | lookup _ => Except DispatchError (Option QueueEntry)
  | scan _ after => Except DispatchError (Page after)
  | queueLength => Except DispatchError Nat
  | queueCounts => Except DispatchError (Table ProjectId Nat)
  | heartbeat _ => Worker × Bool
  | worker _ => Option Worker
  | workers => List Worker
  | available _ => List Worker
  | freshCount => Nat
  | takePlace _ => Option Obstacle
  | release _ => Release
  | staleAfter => Int
  | clock => Timestamp
  | obtainLease .. => Except DispatchError Lease
  | releaseLease _ => Bool
  | progress => SweepRecord
  | beginPass _ => SweepRecord
  | notePlace .. => Unit
  | count _ => Unit
  | log _ => Unit

inductive Program (α : Type) : Type
  | done (a : α)
  | ask (r : Request) (next : r.Answer → Program α)

namespace Program

def bind {α β : Type} : Program α → (α → Program β) → Program β
  | done a, f => f a
  | ask r next, f => ask r fun x => (next x).bind f

instance : Monad Program where
  pure := done
  bind := bind

def request (r : Request) : Program r.Answer := ask r done

/-- Runs a program whose requests are answered from a state. -/
def runWith {σ α : Type} (answer : (r : Request) → σ → r.Answer × σ) : Program α → σ → α × σ
  | done a, s => (a, s)
  | ask r next, s =>
    let (x, s) := answer r s
    (next x).runWith answer s

section

variable {σ α β : Type} (answer : (r : Request) → σ → r.Answer × σ)

@[simp] theorem runWith_pure (a : α) (s : σ) : (pure a : Program α).runWith answer s = (a, s) := rfl

@[simp] theorem runWith_request (r : Request) (s : σ) :
    (request r).runWith answer s = answer r s := rfl

@[simp] theorem runWith_bind (p : Program α) (f : α → Program β) (s : σ) :
    (p >>= f).runWith answer s =
      (f (p.runWith answer s).1).runWith answer (p.runWith answer s).2 := by
  show (p.bind f).runWith answer s = _
  induction p generalizing s with
  | done a => rfl
  | ask r next ih => exact ih _ _

end

end Program

end JobDispatch
