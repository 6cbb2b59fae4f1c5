import JobDispatch.Identifier
import JobDispatch.SortedSet
import JobDispatch.Time.Timestamp

/-!
# Jobs and their lifecycle

A job goes from `created` through `pending` and `running` to one of three final states; a pending
job may also be canceled. It waits in the queue exactly while it is pending, so each edge of the
lifecycle says what it does to the queue.
-/

namespace JobDispatch

inductive JobState
  | created
  | pending
  | running
  | success
  | failed
  | canceled
deriving DecidableEq

namespace JobState

def text : JobState → String
  | created => "created"
  | pending => "pending"
  | running => "running"
  | success => "success"
  | failed => "failed"
  | canceled => "canceled"

def all : List JobState := [created, pending, running, success, failed, canceled]

def ofText? (s : String) : Option JobState := all.find? fun state => state.text == s

def isFinal : JobState → Bool
  | success | failed | canceled => true
  | _ => false

def isPending : JobState → Bool
  | pending => true
  | _ => false

end JobState

/-- What a change of state does to the queue. -/
inductive QueueChange
  | enqueue
  | dequeueClaimed
  | dequeueUnclaimed
  | none
deriving DecidableEq

namespace QueueChange

/-- The name of an effect in records. -/
def name : QueueChange → String
  | enqueue => "enqueue"
  | dequeueClaimed => "dequeue_claimed"
  | dequeueUnclaimed => "dequeue_unclaimed"
  | none => "none"

/-- The name of an effect in running text. -/
def text : QueueChange → String
  | enqueue => "enqueue"
  | dequeueClaimed => "dequeue-claimed"
  | dequeueUnclaimed => "dequeue-unclaimed"
  | none => "none"

def all : List QueueChange := [enqueue, dequeueClaimed, dequeueUnclaimed, none]

end QueueChange

/-- A requested change of state. -/
structure Edge where
  source : JobState
  target : JobState
deriving DecidableEq

namespace Edge

def inLifecycle (t : Edge) : Bool :=
  match t.source, t.target with
  | .created, .pending => true
  | .pending, .running => true
  | .pending, .canceled => true
  | .running, .success => true
  | .running, .failed => true
  | .running, .canceled => true
  | _, _ => false

/-- Only a worker's claim takes a job from the queue to `running`. -/
def needsClaim (t : Edge) : Bool := t.source == .pending && t.target == .running

def queueChange (t : Edge) : QueueChange :=
  match t.source, t.target with
  | .pending, .running => .dequeueClaimed
  | .pending, _ => .dequeueUnclaimed
  | _, .pending => .enqueue
  | _, _ => .none

def entersQueue (t : Edge) : Bool := t.target == .pending && t.source != .pending

def leavesQueue (t : Edge) : Bool := t.source == .pending && t.target != .pending

end Edge

/-- A job as it is handed over for registration. -/
structure JobDraft where
  id : JobId
  project : ProjectId
  /-- What a worker must offer to run the job. -/
  tags : Tags
deriving DecidableEq

structure Job where
  id : JobId
  project : ProjectId
  tags : Tags
  state : JobState
  /-- Set while the job is pending. -/
  enqueuedAt? : Option Timestamp
  /-- The worker that holds the job while it is running. -/
  claimedBy? : Option WorkerId
  updatedAt : Timestamp
deriving DecidableEq

def Job.ofDraft (draft : JobDraft) (now : Timestamp) : Job :=
  ⟨draft.id, draft.project, draft.tags, .created, none, none, now⟩

end JobDispatch
