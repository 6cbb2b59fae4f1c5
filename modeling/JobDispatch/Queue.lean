import JobDispatch.Error
import JobDispatch.Table

/-!
# The queue of pending jobs

The queue has at most one entry for a job. Entries are numbered as they come in, and numbers are
never used again, so that reading the queue page by page neither skips nor repeats an entry however
the queue changes in between. The entries are kept by job, with an index of the jobs by number.
-/

namespace JobDispatch

/-- A place in the order of the queue: that of the entry with this number. -/
structure Cursor where
  sequence : UInt64
deriving DecidableEq, Inhabited

structure QueueEntry where
  job : JobId
  project : ProjectId
  /-- What a worker must offer to take the job. -/
  tags : Tags
  enqueuedAt : Timestamp
  sequence : UInt64
deriving DecidableEq

def QueueEntry.cursor (e : QueueEntry) : Cursor := ⟨e.sequence⟩

structure Receipt where
  job : JobId
  sequence : UInt64
deriving DecidableEq

namespace Cursor

/-- A number comes after a cursor; all numbers come after no cursor. -/
def precedes : Option Cursor → UInt64 → Bool
  | none, _ => true
  | some c, n => c.sequence < n

/-- How many cursors there are from a place on, which bounds the pages after it. -/
def room : Option Cursor → Nat
  | none => UInt64.size + 1
  | some c => UInt64.size - c.sequence.toNat

theorem room_lt {after : Option Cursor} {next : Cursor} (h : precedes after next.sequence = true) :
    room (some next) < room after := by
  cases after with
  | none => simp only [room]; omega
  | some c =>
    have := UInt64.lt_iff_toNat_lt.1 (of_decide_eq_true h)
    have := next.sequence.toNat_lt
    simp only [room, UInt64.size]
    omega

end Cursor

structure Page (after : Option Cursor) where
  entries : List QueueEntry
  /-- Where the next page starts, if there is one. Pages go forward only. -/
  next? : Option { c : Cursor // Cursor.precedes after c.sequence = true }

structure Queue where
  entries : Table JobId QueueEntry
  /-- The jobs in the queue by the numbers of their entries, in ascending order. -/
  order : List (UInt64 × JobId)
  /-- The last number that was given out. -/
  lastSequence : UInt64
deriving DecidableEq

namespace Queue

def empty : Queue := ⟨.empty, [], 0⟩

instance : Inhabited Queue := ⟨empty⟩

/-- Adds an entry at the end; refused if the job has one. -/
def push (q : Queue) (job : JobId) (project : ProjectId) (tags : Tags) (time : Timestamp) :
    Except DispatchError Receipt × Queue :=
  if q.entries.contains job then (.error (.duplicateEntry job), q)
  else
    let sequence := q.lastSequence + 1
    (.ok ⟨job, sequence⟩,
      { entries := q.entries.insert job ⟨job, project, tags, time, sequence⟩
        order := q.order ++ [(sequence, job)]
        lastSequence := sequence })

def pop (q : Queue) (job : JobId) : Bool × Queue :=
  match q.entries.find? job with
  | none => (false, q)
  | some entry =>
    (true,
      { q with
        entries := q.entries.erase job
        order := q.order.filter fun p => p.1 != entry.sequence })

def get? (q : Queue) (job : JobId) : Option QueueEntry := q.entries.find? job

/-- The page of at most `limit` entries after a cursor. It names a next page if entries are left
and it is not empty itself. -/
def scan (q : Queue) (limit : UInt64) (after : Option Cursor) : Page after :=
  let later := q.order.filter fun p => Cursor.precedes after p.1
  let entries := (later.take limit.toNat).filterMap fun p => q.entries.find? p.2
  let more := later.drop limit.toNat != []
  { entries
    next? :=
      match entries.getLast? with
      | none => none
      | some last =>
        if h : Cursor.precedes after last.cursor.sequence = true then
          if more then some ⟨last.cursor, h⟩ else none
        else none }

def length (q : Queue) : Nat := q.entries.size

def counts (q : Queue) : Table ProjectId Nat :=
  q.entries.values.foldl
    (fun counts e => counts.insert e.project ((counts.find? e.project).getD 0 + 1)) .empty

def toList (q : Queue) : List QueueEntry := q.order.filterMap fun p => q.entries.find? p.2

end Queue

end JobDispatch
