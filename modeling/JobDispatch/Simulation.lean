import JobDispatch.Engine

/-!
# Simulation

A fleet of equal workers and a number of equal jobs. The jobs are enqueued, and then rounds follow
in which a pass of the sweep hands out jobs and all running jobs finish, until none wait or the
rounds are used up.

A simulation has no say in the names of its workers and jobs, in how the ticks of its passes take
turns, and in the time at which each request comes. This is its setting. In the standard setting the
names are numbers, ticks come one after the other, and a nanosecond passes with each request, so no
two claims have the same time.
-/

namespace JobDispatch

open Program (request)

structure Simulation where
  workers : Nat
  /-- The number of jobs that each worker runs at once. -/
  capacity : UInt32
  jobs : Nat
  /-- The tags of all workers and all jobs. -/
  tags : Tags
  /-- The most rounds that are played. -/
  rounds : Nat

namespace Simulation

structure Setting where
  workerId : Nat → WorkerId
  jobId : Nat → JobId
  /-- The project of all jobs. -/
  project : ProjectId
  /-- The rota of the pass in each round. -/
  rota : Nat → Rota
  /-- The time of each request. -/
  clock : Nat → Timestamp

/-- The pace of the standard clock: a nanosecond for each request. -/
def pace : Int := 1

def Setting.standard : Setting where
  workerId n := ⟨.ofNat n⟩
  jobId n := ⟨.ofNat n⟩
  project := ⟨.ofNat 0⟩
  rota _ := .plain
  clock k := (Timestamp.epoch.add? (pace * (k + 1))).getD .epoch

/-- What happened in a round. -/
structure Round where
  claimed : Nat
  finished : Nat
  /-- The number of jobs left in the queue. -/
  waiting : Nat
deriving DecidableEq

inductive Failure
  | enqueue (e : DispatchError)
  | queue (e : DispatchError)
  | sweep (e : DispatchError)
  /-- Jobs and queue disagree at the end. -/
  | inconsistent (r : Engine.Audit)
deriving DecidableEq

/-- What came of a simulation. The rounds before a failure are kept. -/
structure Outcome where
  /-- The length of the queue after enqueueing, if it came to that. -/
  queued? : Option Nat
  rounds : List Round
  failure? : Option Failure
deriving DecidableEq

def heartbeatOf (s : Simulation) (worker : WorkerId) (now : Timestamp) : Heartbeat :=
  ⟨worker, s.tags, s.capacity, now, .everyProject, true⟩

def specOf (s : Simulation) (project : ProjectId) (job : JobId) : JobDraft := ⟨job, project, s.tags⟩

def registerWorkers (s : Simulation) (c : Config) : List WorkerId → Program Unit
  | [] => pure ()
  | worker :: workers => do
    let now ← request .clock
    let _ ← Engine.heartbeat c (s.heartbeatOf worker now)
    s.registerWorkers c workers

def enqueueJobs (s : Simulation) (c : Config) (project : ProjectId) :
    List JobId → Program (Except DispatchError Unit)
  | [] => pure (.ok ())
  | job :: jobs => do
    match ← Engine.enqueue c (s.specOf project job) with
    | .error e => pure (.error e)
    | .ok _ => s.enqueueJobs c project jobs

def finish (c : Config) (job : JobId) : Program Bool := do
  match ← request (.readJob job) with
  | none => pure false
  | some record =>
    if record.state != .running then pure false
    else
      let report ← Engine.reportTransition c job ⟨.running, .success⟩
      pure report.applied

def finishAll (c : Config) : List JobId → Nat → Program Nat
  | [], finished => pure finished
  | job :: jobs, finished => do
    let applied ← finish c job
    finishAll c jobs (if applied then finished + 1 else finished)

def playRound (rota : Rota) (c : Config) (jobs : List JobId) : Program (Except Failure Round) := do
  match ← Engine.sweepBy rota c with
  | .error e => pure (.error (.sweep e))
  | .ok report =>
    let finished ← finishAll c jobs 0
    match ← request .queueLength with
    | .error e => pure (.error (.queue e))
    | .ok waiting => pure (.ok ⟨report.claimed, finished, waiting⟩)

/-- Plays at most so many rounds after some that were played, and none after one that leaves no job
waiting. -/
def playRounds (rota : Nat → Rota) (c : Config) (jobs : List JobId) :
    (rounds played : Nat) → Program (List Round × Option Failure)
  | 0, _ => pure ([], none)
  | n + 1, k => do
    match ← playRound (rota k) c jobs with
    | .error e => pure ([], some e)
    | .ok round =>
      if round.waiting = 0 then pure ([round], none)
      else
        let (rounds, failure?) ← playRounds rota c jobs n (k + 1)
        pure (round :: rounds, failure?)

def audit (c : Config) : Program (Option Failure) := do
  match ← Engine.verify c with
  | .error e => pure (some (.queue e))
  | .ok report => pure (if report.isClean then none else some (.inconsistent report))

def program (s : Simulation) (c : Config) (setting : Setting) : Program Outcome := do
  let jobs := (List.range s.jobs).map setting.jobId
  s.registerWorkers c ((List.range s.workers).map setting.workerId)
  match ← s.enqueueJobs c setting.project jobs with
  | .error e => pure ⟨none, [], some (.enqueue e)⟩
  | .ok _ =>
    match ← request .queueLength with
    | .error e => pure ⟨none, [], some (.queue e)⟩
    | .ok queued =>
      match ← playRounds setting.rota c jobs s.rounds 0 with
      | (rounds, some e) => pure ⟨some queued, rounds, some e⟩
      | (rounds, none) => pure ⟨some queued, rounds, ← audit c⟩

/-- Runs a simulation by itself, with all metrics counted. -/
def run (s : Simulation) (c : Config) (setting : Setting) : Outcome × World :=
  let (outcome, world, _) := (s.program c setting).runWith (World.answerAt setting.clock)
    (Engine.initial c (.counting .zero) (setting.clock 0), 0)
  (outcome, world)

end Simulation

end JobDispatch
