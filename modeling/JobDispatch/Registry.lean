import JobDispatch.Table
import JobDispatch.Worker

/-!
# The registry of workers

The workers that have ever sent a heartbeat. Workers are never removed: one that falls silent drops
out of the available ones. A claim takes one place of a worker's capacity, and a release gives it
back.
-/

namespace JobDispatch

/-- Why a worker cannot take a job. -/
inductive Obstacle
  | unknownWorker
  | stale
  | noCapacity
deriving DecidableEq

inductive Release
  | released
  | unknownWorker
  /-- The worker holds no job. -/
  | idle
deriving DecidableEq

structure Registry where
  workers : Table WorkerId Worker
  /-- Workers whose last contact is longer ago, in nanoseconds, are stale. -/
  staleAfter : Int
deriving DecidableEq

namespace Registry

def empty (staleAfter : Int) : Registry := ⟨.empty, staleAfter⟩

def get? (r : Registry) (id : WorkerId) : Option Worker := r.workers.find? id

def put (r : Registry) (w : Worker) : Registry := { r with workers := r.workers.insert w.id w }

/-- Takes over a heartbeat, the first of a worker registers it. Gives the record and tells whether
it is a new one. -/
def heartbeat (r : Registry) (h : Heartbeat) : (Worker × Bool) × Registry :=
  match r.get? h.worker with
  | some w =>
    let w := w.refresh h
    ((w, false), r.put w)
  | none =>
    let w := Worker.ofHeartbeat h
    ((w, true), r.put w)

def available (r : Registry) (project : ProjectId) (now : Timestamp) : List Worker :=
  r.workers.values.filter fun w => w.scope.covers project && w.isReady now r.staleAfter

/-- The number of workers with recent contact, with or without spare capacity. -/
def freshCount (r : Registry) (now : Timestamp) : Nat :=
  r.workers.values.countP fun w => w.inContact now r.staleAfter

/-- Takes a place of a worker if it is fresh and has one to spare. -/
def takePlace (r : Registry) (id : WorkerId) (now : Timestamp) : Option Obstacle × Registry :=
  match r.get? id with
  | none => (some .unknownWorker, r)
  | some w =>
    if !w.inContact now r.staleAfter then (some .stale, r)
    else if w.room = 0 then (some .noCapacity, r)
    else (none, r.put { w with running := w.running + 1, lastClaimedAt? := some now })

/-- Gives a place of a worker back. -/
def release (r : Registry) (id : WorkerId) : Release × Registry :=
  match r.get? id with
  | none => (.unknownWorker, r)
  | some w =>
    if w.running = 0 then (.idle, r)
    else (.released, r.put { w with running := w.running - 1 })

end Registry

end JobDispatch
