import JobDispatch.Program

/-!
# The state behind the requests

The table of jobs, the queue store, the registry, the leases, the progress of the sweep, the sink,
the clock and the log. Each request changes at most one of them.
-/

namespace JobDispatch

structure World where
  jobs : Table JobId Job
  queue : FallibleQueue
  registry : Registry
  leases : Leases
  progress : SweepRecord
  sink : Sink
  now : Timestamp
  /-- The events so far, the latest first. -/
  events : List Event
deriving DecidableEq

namespace World

/-- Nothing registered, nothing queued. -/
def initial (staleAfter : Int) (sink : Sink) (now : Timestamp) : World where
  jobs := .empty
  queue := default
  registry := .empty staleAfter
  leases := .empty
  progress := .initial
  sink := sink
  now := now
  events := []

/-- Counts a metric; a sink that logs also writes an event. -/
def record (m : Metric) (w : World) : World :=
  { w with
    sink := w.sink.record m
    events := match w.sink with
      | .logging _ => .metric m :: w.events
      | _ => w.events }

def addJob (draft : JobDraft) (w : World) : Option Job × World :=
  if w.jobs.contains draft.id then (none, w)
  else
    let job := Job.ofDraft draft w.now
    (some job, { w with jobs := w.jobs.insert job.id job })

def onQueue {α : Type} (w : World) (call : FallibleQueue → α × FallibleQueue) : α × World :=
  let (answer, queue) := call w.queue
  (answer, { w with queue })

def onRegistry {α : Type} (w : World) (call : Registry → α × Registry) : α × World :=
  let (answer, registry) := call w.registry
  (answer, { w with registry })

def onLeases {α : Type} (w : World) (call : Leases → α × Leases) : α × World :=
  let (answer, leases) := call w.leases
  (answer, { w with leases })

/-- The answer to a request, and the state after it. -/
def answer (r : Request) (w : World) : r.Answer × World :=
  match r with
  | .addJob draft => w.addJob draft
  | .readJob job => (w.jobs.find? job, w)
  | .jobIds => (w.jobs.keys, w)
  | .lockJob job => (w.jobs.find? job, w)
  | .storeJob record => ((), { w with jobs := w.jobs.insert record.id record })
  | .unlockJob _ => ((), w)
  | .push job project tags time => w.onQueue fun q => q.push job project tags time
  | .pop job => w.onQueue fun q => q.pop job
  | .lookup job => w.onQueue fun q => q.get job
  | .scan limit after => w.onQueue fun q => q.scan limit after
  | .queueLength => w.onQueue FallibleQueue.length
  | .queueCounts => w.onQueue FallibleQueue.counts
  | .heartbeat h => w.onRegistry fun r => r.heartbeat h
  | .worker id => (w.registry.get? id, w)
  | .workers => (w.registry.workers.values, w)
  | .available project => (w.registry.available project w.now, w)
  | .freshCount => (w.registry.freshCount w.now, w)
  | .takePlace worker => w.onRegistry fun r => r.takePlace worker w.now
  | .release worker => w.onRegistry fun r => r.release worker
  | .staleAfter => (w.registry.staleAfter, w)
  | .clock => (w.now, w)
  | .obtainLease key ttl now => w.onLeases fun l => l.obtain? key ttl now
  | .releaseLease lease => w.onLeases fun l => l.release lease
  | .progress => (w.progress, w)
  | .beginPass now => (w.progress, { w with progress := w.progress.begin now })
  | .notePlace cursor? phase =>
    ((), { w with progress := w.progress.notePlace cursor? phase w.now })
  | .count metric => ((), w.record metric)
  | .log event => ((), { w with events := event :: w.events })

/-- Moves the clock; there is no world past the last point in time. -/
def moveClock? (w : World) (delta : Int) : Option World :=
  (w.now.add? delta).map fun now => { w with now }

/-- The world at another time. -/
def atTime (w : World) (now : Timestamp) : World := { w with now }

/-- The answer to a request at its time by a schedule. The number counts the requests before it. -/
def answerAt (clock : Nat → Timestamp) (r : Request) (s : World × Nat) :
    r.Answer × (World × Nat) :=
  let (x, w) := (s.1.atTime (clock s.2)).answer r
  (x, w, s.2 + 1)

/-- The answer to a request while time passes: each request comes `delta` nanoseconds after the one
before. The clock stops at the last point in time. -/
def answerAfter (delta : Int) (r : Request) (w : World) : r.Answer × World :=
  ((w.moveClock? delta).getD w).answer r

end World

def Program.run {α : Type} (p : Program α) (w : World) : α × World := p.runWith World.answer w

@[simp] theorem Program.run_pure {α : Type} (a : α) (w : World) :
    (pure a : Program α).run w = (a, w) := rfl

@[simp] theorem Program.run_request (r : Request) (w : World) :
    (Program.request r).run w = w.answer r := rfl

@[simp] theorem Program.run_bind {α β : Type} (p : Program α) (f : α → Program β) (w : World) :
    (p >>= f).run w = (f (p.run w).1).run (p.run w).2 := Program.runWith_bind _ p f w

end JobDispatch
