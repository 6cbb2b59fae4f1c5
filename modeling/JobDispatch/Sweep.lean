import JobDispatch.Pool
import JobDispatch.Tick

/-!
# Sweeps

A pass of a sweep holds a lease, goes through the queue page by page and ticks every entry it
finds. The ticks of a page share a pool, in which as many are under way at once as the plan allows.
After each page the pass notes where it stands. A pass that stops at the cap on batches, or fails,
leaves the sweep to be resumed by the next pass from the last note.

In what order the ticks of a pool come on is not up to the pass: a rota tells it, page by page. On
the plain rota they come one after the other, as they do where no request has to wait.
-/

namespace JobDispatch

open Program (request)

/-- The key of the lease that passes hold. -/
def sweepLeaseKey : String := "dispatch-sweep"

/-- The picks for the pool of each page of a pass. -/
abbrev Rota := Nat → List Nat

/-- The ticks of each page come one after the other. -/
def Rota.plain : Rota := fun _ => []

/-- The most ticks of a page that are under way at once. -/
def SweepPlan.width (plan : SweepPlan) : Nat := max 1 plan.concurrency.toNat

/-- Ticks the entries of a page in a pool. -/
def offerPage (plan : SweepPlan) (untaggedOnly : Bool) (picks : List Nat)
    (es : List QueueEntry) : Program (List (Except DispatchError TickOutcome)) :=
  Program.pool plan.width picks (es.map (offerEntry untaggedOnly))

/-- Counts the outcomes of a page, and logs the errors among them. -/
def recordOutcomes :
    List (Except DispatchError TickOutcome) → PassReport → Program PassReport
  | [], report => pure report
  | outcome :: outcomes, report => do
    match outcome with
    | .error e => request (.log (.tickFailed e))
    | .ok _ => pure ()
    recordOutcomes outcomes (report.record outcome)

def SweepPlan.capped (s : SweepPlan) (report : PassReport) : Bool :=
  match s.maxBatches? with
  | none => false
  | some most => most.toNat ≤ report.batches

/-- Goes on with a pass after a cursor. -/
def sweepFromBy (rota : Rota) (plan : SweepPlan) (untaggedOnly : Bool) (after : Option Cursor)
    (report : PassReport) : Program (Except DispatchError PassReport) := do
  if plan.capped report then
    request (.notePlace after .unfinished)
    request (.log (.batchCap report.batches))
    pure (.ok report)
  else
    match ← request (.scan plan.batchSize after) with
    | .error e => pure (.error e)
    | .ok page =>
      let outcomes ← offerPage plan untaggedOnly (rota report.batches) page.entries
      let report ← recordOutcomes outcomes report
      let report := { report with batches := report.batches + 1 }
      match page.next? with
      | some ⟨next, _⟩ =>
        request (.notePlace (some next) .ongoing)
        sweepFromBy rota plan untaggedOnly (some next) report
      | none =>
        request (.notePlace none .completed)
        pure (.ok { report with completed := true })
termination_by Cursor.room after
decreasing_by exact Cursor.room_lt (by assumption)

/-- Begins a pass: where it starts, and whether it goes on with an earlier one. -/
def beginPass : Program (Option Cursor × Bool) := do
  let now ← request .clock
  let earlier ← request (.beginPass now)
  if earlier.phase == .ongoing then
    request (.log (.neverFinished earlier.cursor? earlier.startedAt?))
  if earlier.resumes then
    request (.log (.resuming earlier.cursor?))
    pure (earlier.cursor?, true)
  else pure (none, false)

def passBy (rota : Rota) (plan : SweepPlan) (untaggedOnly : Bool) :
    Program (Except DispatchError PassReport) := do
  let active ← request .freshCount
  request (.count (.activeWorkers (UInt64.ofNat active)))
  let (after, resumed) ← beginPass
  sweepFromBy rota plan untaggedOnly after (.start resumed)

/-- One pass, which takes the lease and gives it back. It fails if the lease is not to be had, or if
the queue cannot be read. -/
def sweepBy (rota : Rota) (plan : SweepPlan) (untaggedOnly : Bool) :
    Program (Except DispatchError PassReport) := do
  let now ← request .clock
  match ← request (.obtainLease sweepLeaseKey plan.leaseTimeout.delta now) with
  | .error e => pure (.error e)
  | .ok lease =>
    let result ← passBy rota plan untaggedOnly
    let inForce ← request (.releaseLease lease)
    if !inForce then request (.log (.leaseOverrun lease.key lease.expiresAt))
    match result with
    | .error e => pure (.error e)
    | .ok report =>
      request (.log (.sweepFinished report))
      pure (.ok report)

/-- One pass whose ticks come one after the other. -/
def sweep (plan : SweepPlan) (untaggedOnly : Bool) :
    Program (Except DispatchError PassReport) :=
  sweepBy .plain plan untaggedOnly

/-- One cycle of the periodic sweep: failures are logged, and a lease held elsewhere only skips the
cycle. -/
def sweepCycle (plan : SweepPlan) (untaggedOnly : Bool) : Program Unit := do
  match ← sweep plan untaggedOnly with
  | .ok _ => pure ()
  | .error e =>
    if e.isHeldLease then request (.log .cycleSkipped)
    else request (.log (.sweepFailed e))

end JobDispatch
