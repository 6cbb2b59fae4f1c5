import JobDispatch.Identifier
import JobDispatch.SortedSet
import JobDispatch.Time.Timestamp

/-!
# Workers and their heartbeats

A worker announces itself by heartbeats, which say what it offers. The record of a worker adds what
dispatch knows of it: how many jobs it holds and when it last took one.
-/

namespace JobDispatch

/-- The projects that a worker takes jobs from. -/
inductive Scope
  /-- Shared by all projects. -/
  | everyProject
  | only (projects : SortedSet ProjectId)
deriving DecidableEq

def Scope.covers (project : ProjectId) : Scope → Bool
  | everyProject => true
  | only projects => projects.contains project

structure Heartbeat where
  worker : WorkerId
  tags : Tags
  /-- The number of jobs that the worker runs at once. -/
  capacity : UInt32
  contactTime : Timestamp
  scope : Scope
  /-- Whether the worker takes jobs without tags although it has tags itself. -/
  runUntagged : Bool
deriving DecidableEq

structure Worker where
  id : WorkerId
  tags : Tags
  capacity : UInt32
  /-- Claimed jobs that have not finished. -/
  running : UInt32
  lastContact : Timestamp
  /-- The last claim; `none` if there never was one. -/
  lastClaimedAt? : Option Timestamp
  scope : Scope
  runUntagged : Bool
deriving DecidableEq

namespace Worker

def ofHeartbeat (h : Heartbeat) : Worker :=
  ⟨h.worker, h.tags, h.capacity, 0, h.contactTime, none, h.scope, h.runUntagged⟩

/-- Takes over what a heartbeat says and leaves the claims as they are. Heartbeats may come out of
order, so the time of contact never goes back. -/
def refresh (w : Worker) (h : Heartbeat) : Worker :=
  { w with
    tags := h.tags
    capacity := h.capacity
    scope := h.scope
    runUntagged := h.runUntagged
    lastContact := if w.lastContact < h.contactTime then h.contactTime else w.lastContact }

/-- The number of further jobs that the worker can take. A heartbeat may have lowered the capacity
below the number of running jobs. -/
def room (w : Worker) : UInt32 :=
  if w.running < w.capacity then w.capacity - w.running else 0

/-- The last contact is at most `staleAfter` nanoseconds ago. -/
def inContact (w : Worker) (now : Timestamp) (staleAfter : Int) : Bool :=
  now.since w.lastContact ≤ staleAfter

def isReady (w : Worker) (now : Timestamp) (staleAfter : Int) : Bool :=
  0 < w.room && w.inContact now staleAfter

theorem room_pos_iff {w : Worker} : 0 < w.room ↔ w.running < w.capacity := by
  unfold room
  split
  · rename_i h
    have h' := UInt32.lt_iff_toNat_lt.1 h
    simp only [h, iff_true]
    rw [UInt32.lt_iff_toNat_lt, UInt32.toNat_sub_of_le _ _ (UInt32.le_of_lt h)]
    have h0 : (0 : UInt32).toNat = 0 := rfl
    omega
  · rename_i h
    simp [h]

end Worker

end JobDispatch
