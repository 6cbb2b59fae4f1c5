import JobDispatch.Scenario.Operation

/-!
# Scenarios

The steps of a scenario are operations, moves of the clock, leases that are kept under names, runs
of the periodic sweep, faults of the queue store, and hooks. A hook holds steps that are performed
inside a later operation, right after one of its requests to the sink. So what happens between two
requests of an operation can be laid down.

A hook runs its steps once. Each level of steps inside steps takes one hook of the scenario, so the
number of hooks in a scenario bounds the levels.
-/

namespace JobDispatch.Scenario

/-- The requests that hooks wait for. -/
inductive HookPoint
  /-- A worker is about to be offered a job. -/
  | workerTick
  /-- A pass of a sweep has its lease and has not looked at the progress. -/
  | activeWorkers
deriving DecidableEq

def HookPoint.of? : Request → Option HookPoint
  | .count (.workerTick _) => some workerTick
  | .count (.activeWorkers _) => some activeWorkers
  | _ => none

inductive Step
  | perform (op : Operation)
  | advance (delta : Int)
  | obtainLease (key : String) (ttl : Int) (name : String) (time : When)
  | releaseLease (name : String)
  | leaseExpired (name : String) (time : When)
  /-- Runs the periodic sweep for some passes, with a move of the clock between two of them. If it
  is spawned by the engine, the mode decides whether it runs. -/
  | sweepLoop (cycles : Nat) (pause : Int) (spawned : Bool)
  | counters
  | events
  | closeChannel
  /-- Makes a call on the queue store fail, or miss, after some that pass. -/
  | fault (call : QueueCall) (misses : Bool) (skip : Nat)
  | hook (point : HookPoint) (skip : Nat) (steps : List Step)
  | audit
  | keepEntry (job : JobId) (name : String)
  | offerKept (name : String)
  /-- A step that cannot be performed. -/
  | unreadable (reply : Reply)

/-- Steps that wait for a request. -/
structure Hook where
  point : HookPoint
  /-- The number of requests that pass before the steps are performed. -/
  skip : Nat
  steps : List Step

/-- Lets the first hook of a point see one request: the steps it has to perform, and the hooks that
are left. -/
def fire (point : HookPoint) : List Hook → List Step × List Hook
  | [] => ([], [])
  | hook :: hooks =>
    if hook.point = point then
      if hook.skip = 0 then (hook.steps, hooks)
      else ([], { hook with skip := hook.skip - 1 } :: hooks)
    else
      let (steps, hooks) := fire point hooks
      (steps, hook :: hooks)

structure Session where
  config : Config
  world : World
  /-- The nanoseconds that pass with each request. -/
  pace : Int
  hooks : List Hook
  /-- Leases under their names. -/
  leases : Table String Lease
  /-- Queue entries under their names, as they once were. -/
  entries : Table String QueueEntry
  /-- Replies of the steps of hooks since the last step began. -/
  hooked : List Reply

namespace Session

/-- How the steps of a hook are performed. -/
abbrev Reaction := List Step → Session → Session

/-- The answer to a request, after which a hook may take its turn. -/
def answer (react : Reaction) (r : Request) (s : Session) : r.Answer × Session :=
  let (x, world) := s.world.answerAfter s.pace r
  let s := { s with world }
  match HookPoint.of? r with
  | none => (x, s)
  | some point =>
    let (steps, hooks) := fire point s.hooks
    (x, react steps { s with hooks })

def run {α : Type} (react : Reaction) (p : Program α) (s : Session) : α × Session :=
  p.runWith (answer react) s

/-- Changes the queue store behind the back of the operations. -/
def editQueue (s : Session) (edit : FallibleQueue → FallibleQueue) : Session :=
  { s with world := { s.world with queue := edit s.world.queue } }

def faultKey : String := "injected"

/-- What a fault does to a call. Only calls that look for an entry can miss it. -/
def failureOf (call : QueueCall) (misses : Bool) : Failure :=
  if misses && (call == .pop || call == .get) then .miss else .error (.leaseOutOfRange faultKey)

/-- Passes of the periodic sweep with a move of the clock between two of them; `none` if the clock
cannot go so far. -/
def sweepCycles (react : Reaction) (pause : Int) : Nat → Session → Option Session
  | 0, s => some s
  | n + 1, s =>
    let (_, s) := s.run react (sweepCycle s.config.sweepPlan s.config.untaggedOnly)
    if n = 0 then some s
    else (s.world.moveClock? pause).bind fun world => sweepCycles react pause n { s with world }

/-- The bounds of a run of the periodic sweep: the least interval, in nanoseconds, and the largest
number of passes. -/
def leastInterval : Nat := 10000000

def mostCycles : Nat := 50

def sweepLoop (react : Reaction) (cycles : Nat) (pause : Int) (spawned : Bool) (s : Session) :
    Reply × Session :=
  if cycles = 0 ∨ mostCycles < cycles ∨ s.config.interval.nanos < leastInterval then
    (.invalid, s)
  else if spawned && !s.config.mode.inSweeps then (.cycles false s.world.progress, s)
  else
    let (_, started) := s.run react (.request (.log (.loopStarted s.config.interval)))
    match sweepCycles react pause cycles started with
    | none => (.outOfTime, s)
    | some s =>
      let (_, s) := s.run react (.request (.log .loopStopped))
      (.cycles true s.world.progress, s)

def perform (react : Reaction) (step : Step) (s : Session) : Reply × Session :=
  match step with
  | .perform op => s.run react (op.program s.config)
  | .advance delta =>
    match s.world.moveClock? delta with
    | none => (.outOfTime, s)
    | some world => (.time world.now, { s with world })
  | .obtainLease key ttl name time =>
    match s.run react time.resolve with
    | (none, s) => (.invalid, s)
    | (some now, s) =>
      match s.run react (.request (.obtainLease key ttl now)) with
      | (.error e, s) => (.refused e, s)
      | (.ok lease, s) => (.lease lease, { s with leases := s.leases.insert name lease })
  | .releaseLease name =>
    match s.leases.find? name with
    | none => (.invalid, s)
    | some lease =>
      let (inForce, s) := s.run react (.request (.releaseLease lease))
      (.truth inForce, s)
  | .leaseExpired name time =>
    match s.leases.find? name, s.run react time.resolve with
    | some lease, (some now, s) => (.truth (lease.hasRunOut now), s)
    | _, (_, s) => (.invalid, s)
  | .sweepLoop cycles pause spawned => s.sweepLoop react cycles pause spawned
  | .counters =>
    match s.world.sink with
    | .counting c => (.counters c, s)
    | _ => (.invalid, s)
  | .events =>
    let (ms, sink) := s.world.sink.drain
    let s := { s with world := { s.world with sink } }
    match sink with
    | .logging _ => (.logged ms, s)
    | _ => (.received ms, s)
  | .closeChannel =>
    match s.world.sink with
    | .sending c => (.done, { s with world := { s.world with sink := .sending c.close } })
    | _ => (.invalid, s)
  | .fault call misses skip =>
    (.done, s.editQueue fun q => q.arm ⟨call, skip, failureOf call misses⟩)
  | .hook point skip steps => (.done, { s with hooks := s.hooks ++ [⟨point, skip, steps⟩] })
  | .audit => (s.editQueue FallibleQueue.dropMisses).run react (Operation.verify.program s.config)
  | .keepEntry job name =>
    match s.world.queue.queue.get? job with
    | none => (.invalid, s)
    | some e => (.done, { s with entries := s.entries.insert name e })
  | .offerKept name =>
    match s.entries.find? name with
    | none => (.invalid, s)
    | some e => s.run react ((Operation.offerEntry e).program s.config)
  | .unreadable reply => (reply, s)

/-- Performs the steps of hooks one after the other, to so many levels. -/
def react : Nat → Reaction
  | 0, _, s => s
  | levels + 1, steps, s =>
    steps.foldl
      (fun s step =>
        let (reply, s) := s.perform (react levels) step
        { s with hooked := s.hooked ++ [reply] })
      s

end Session

/-! ### Runs -/

mutual

def Step.hookCount : Step → Nat
  | .hook _ _ steps => hookCount steps + 1
  | _ => 0

def hookCount : List Step → Nat
  | [] => 0
  | step :: steps => step.hookCount + hookCount steps

end

/-- What came of one step of a scenario. -/
structure StepReport where
  reply : Reply
  /-- Replies of the steps of hooks, in the order in which they were done. -/
  hooked : List Reply
  /-- What was logged during the step. -/
  log : List Event
  /-- The state after the step. -/
  world : World

namespace Session

def start (c : Config) (world : World) (pace : Int) : Session :=
  ⟨c, world, pace, [], .empty, .empty, []⟩

def play (levels : Nat) (step : Step) (s : Session) : StepReport × Session :=
  let s := { s with hooked := [], world := { s.world with events := [] } }
  let (reply, s) := s.perform (react levels) step
  (⟨reply, s.hooked, s.world.events.reverse, s.world⟩, s)

/-- Performs steps, with hooks to so many levels. -/
def playAll (levels : Nat) : List Step → Session → List StepReport × Session
  | [], s => ([], s)
  | step :: steps, s =>
    let (report, s) := s.play levels step
    let (reports, s) := playAll levels steps s
    (report :: reports, s)

end Session

/-- Performs a scenario: a report for each step, and the state at the end. -/
def run (steps : List Step) (s : Session) : List StepReport × World :=
  let (reports, s) := s.playAll (hookCount steps) steps
  (reports, s.world)

end JobDispatch.Scenario
