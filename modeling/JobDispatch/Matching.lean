import JobDispatch.Queue
import JobDispatch.Ranking
import JobDispatch.Worker

/-!
# Which workers may take a job

A worker may take a queued job if it serves the project, has been in contact recently, has capacity
to spare and fits the tags. The workers that may are ranked: those that went longest without a
claim come first, those that never had one before all others, and equals in the order of their
names. So load spreads over the workers, and the ranking does not depend on the order of the
candidates.
-/

namespace JobDispatch

/-- What counts besides the entry and the worker. -/
structure Criteria where
  now : Timestamp
  staleAfter : Int
  /-- If not set, workers without tags take all jobs. -/
  untaggedOnly : Bool

namespace Worker

/-- The tags of a worker fit the tags that a job asks for. -/
def fitsTags (w : Worker) (required : Tags) (untaggedOnly : Bool) : Bool :=
  if w.tags.isEmpty then required.isEmpty || !untaggedOnly
  else if required.isEmpty then w.runUntagged
  else required.subset w.tags

def eligible (w : Worker) (e : QueueEntry) (p : Criteria) : Bool :=
  w.scope.covers e.project && w.isReady p.now p.staleAfter &&
    w.fitsTags e.tags p.untaggedOnly

/-- One claim was no later than another; no claim is before all claims. -/
def claimedNoLater : Option Timestamp → Option Timestamp → Bool
  | none, _ => true
  | some _, none => false
  | some a, some b => a ≤ b

/-- The first worker comes no later than the second in a ranking. -/
def rankedBefore (a b : Worker) : Bool :=
  if a.lastClaimedAt? = b.lastClaimedAt? then a.id.atMost b.id
  else claimedNoLater a.lastClaimedAt? b.lastClaimedAt?

end Worker

/-- The candidates that may take the job of an entry, in the order in which it is offered. -/
def rank (e : QueueEntry) (candidates : List Worker) (p : Criteria) : List Worker :=
  rankBy Worker.rankedBefore (candidates.filter fun w => w.eligible e p)

end JobDispatch
