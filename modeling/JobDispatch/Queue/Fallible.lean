import JobDispatch.Queue

/-!
# A queue store that may fail

Calls on a store can fail without effect. Which calls fail is laid down by a plan: a fault names a
kind of call, lets some calls of that kind pass and strikes the next one, once. An empty plan gives
the queue itself.
-/

namespace JobDispatch

/-- The kinds of calls on a queue store. -/
inductive QueueCall
  | push
  | pop
  | get
  | scan
  | length
  | counts
deriving DecidableEq

/-- What a struck call answers. The queue stays as it is. -/
inductive Failure
  | error (e : DispatchError)
  /-- The call finds no entry, although there may be one. -/
  | miss
deriving DecidableEq

structure Fault where
  call : QueueCall
  /-- The number of calls that pass before the fault strikes. -/
  skip : Nat
  failure : Failure
deriving DecidableEq

structure FallibleQueue where
  queue : Queue
  plan : List Fault
deriving DecidableEq

namespace FallibleQueue

def ofQueue (q : Queue) : FallibleQueue := ⟨q, []⟩

instance : Inhabited FallibleQueue := ⟨ofQueue default⟩

/-- Lets the first fault of a kind of call see one call: what strikes it, and the plan after it. -/
def strike (call : QueueCall) : List Fault → Option Failure × List Fault
  | [] => (none, [])
  | fault :: plan =>
    if fault.call = call then
      if fault.skip = 0 then (some fault.failure, plan)
      else (none, { fault with skip := fault.skip - 1 } :: plan)
    else
      let (struck, plan) := strike call plan
      (struck, fault :: plan)

/-- A call with what it does if nothing strikes it. `onMiss` is its answer on a miss; a call without
one cannot miss. -/
def guarded {α : Type} (s : FallibleQueue) (call : QueueCall) (onMiss : Option α)
    (act : Queue → Except DispatchError α × Queue) : Except DispatchError α × FallibleQueue :=
  match strike call s.plan, onMiss with
  | (some (.error e), plan), _ => (.error e, { s with plan })
  | (some .miss, plan), some answer => (.ok answer, { s with plan })
  | (_, plan), _ =>
    let (answer, queue) := act s.queue
    (answer, ⟨queue, plan⟩)

def push (s : FallibleQueue) (job : JobId) (project : ProjectId) (tags : Tags) (time : Timestamp) :
    Except DispatchError Receipt × FallibleQueue :=
  s.guarded .push none fun q => q.push job project tags time

def pop (s : FallibleQueue) (job : JobId) : Except DispatchError Bool × FallibleQueue :=
  s.guarded .pop (some false) fun q =>
    let (removed, q) := q.pop job
    (.ok removed, q)

def get (s : FallibleQueue) (job : JobId) :
    Except DispatchError (Option QueueEntry) × FallibleQueue :=
  s.guarded .get (some none) fun q => (.ok (q.get? job), q)

def scan (s : FallibleQueue) (limit : UInt64) (after : Option Cursor) :
    Except DispatchError (Page after) × FallibleQueue :=
  s.guarded .scan none fun q => (.ok (q.scan limit after), q)

def length (s : FallibleQueue) : Except DispatchError Nat × FallibleQueue :=
  s.guarded .length none fun q => (.ok q.length, q)

def counts (s : FallibleQueue) : Except DispatchError (Table ProjectId Nat) × FallibleQueue :=
  s.guarded .counts none fun q => (.ok q.counts, q)

def arm (s : FallibleQueue) (fault : Fault) : FallibleQueue := { s with plan := s.plan ++ [fault] }

/-- Drops the pending faults by which looking up an entry would miss. -/
def dropMisses (s : FallibleQueue) : FallibleQueue :=
  { s with plan := s.plan.filter fun f => !(f.call == .get && f.failure == .miss) }

end FallibleQueue

end JobDispatch
