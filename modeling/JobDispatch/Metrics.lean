import JobDispatch.Identifier
import JobDispatch.Table

/-!
# Metrics

Dispatch reports what it does to a sink and never learns what becomes of it. A sink may count, keep
what it is told, hand it on over a channel of limited size, or drop it. A full or closed channel
loses events.
-/

namespace JobDispatch

/-- Why an entry left the queue. -/
inductive Departure
  /-- A worker claimed the job. -/
  | claimed
  /-- The job left the queue without running. -/
  | unclaimed
deriving DecidableEq

inductive Metric
  | queuePush
  | queuePop (kind : Departure)
  /-- The number of workers with recent contact. -/
  | activeWorkers (count : UInt64)
  /-- A worker was offered a job. -/
  | workerTick (worker : WorkerId)
  | duplicateEntry
  | consistencyViolation
deriving DecidableEq

/-- The counts of metrics so far. -/
structure Counters where
  queuePush : UInt64
  queuePopClaimed : UInt64
  queuePopUnclaimed : UInt64
  activeWorkers : UInt64
  duplicateEntries : UInt64
  consistencyViolations : UInt64
  workerTicks : Table WorkerId UInt64
deriving DecidableEq

namespace Counters

def zero : Counters := ⟨0, 0, 0, 0, 0, 0, .empty⟩

def record (c : Counters) : Metric → Counters
  | .queuePush => { c with queuePush := c.queuePush + 1 }
  | .queuePop .claimed => { c with queuePopClaimed := c.queuePopClaimed + 1 }
  | .queuePop .unclaimed => { c with queuePopUnclaimed := c.queuePopUnclaimed + 1 }
  | .activeWorkers count => { c with activeWorkers := count }
  | .workerTick worker =>
    { c with workerTicks := c.workerTicks.insert worker ((c.workerTicks.find? worker).getD 0 + 1) }
  | .duplicateEntry => { c with duplicateEntries := c.duplicateEntries + 1 }
  | .consistencyViolation => { c with consistencyViolations := c.consistencyViolations + 1 }

def totalTicks (c : Counters) : UInt64 := c.workerTicks.values.foldl (· + ·) 0

end Counters

/-- Events on their way to a receiver. -/
structure Channel where
  capacity : Nat
  isOpen : Bool
  buffered : List Metric
deriving DecidableEq

namespace Channel

/-- A channel without room counts as one with room for one event. -/
def ofCapacity (n : Nat) : Channel := ⟨max n 1, true, []⟩

def send (c : Channel) (m : Metric) : Channel :=
  if c.isOpen ∧ c.buffered.length < c.capacity then { c with buffered := c.buffered ++ [m] } else c

def close (c : Channel) : Channel := { c with isOpen := false, buffered := [] }

end Channel

inductive Sink
  | silent
  | counting (counters : Counters)
  /-- Metrics go to the log; those not yet asked for are kept. -/
  | logging (recent : List Metric)
  | sending (channel : Channel)
deriving DecidableEq

namespace Sink

def record (m : Metric) : Sink → Sink
  | silent => silent
  | counting counters => counting (counters.record m)
  | logging recent => logging (recent ++ [m])
  | sending channel => sending (channel.send m)

/-- The events that the sink has on hand, which it then has no longer. -/
def drain : Sink → List Metric × Sink
  | logging recent => (recent, logging [])
  | sending channel => (channel.buffered, sending { channel with buffered := [] })
  | sink => ([], sink)

end Sink

end JobDispatch
