import JobDispatch.Engine
import JobDispatch.Json
import JobDispatch.Time.Rfc3339

/-!
# Records as JSON

How the records that operations work with and give back are written.
-/

namespace JobDispatch

def JobId.toJson (id : JobId) : Json := .str id.text

def ProjectId.toJson (id : ProjectId) : Json := .str id.text

def WorkerId.toJson (id : WorkerId) : Json := .str id.text

def Timestamp.toJson (t : Timestamp) : Json := .str t.text

def Tags.toJson (tags : Tags) : Json := .arr (tags.members.map .str)

def JobState.toJson (s : JobState) : Json := .str s.text

def Cursor.toJson (c : Cursor) : Json := .nat c.sequence.toNat

def Scope.toJson : Scope → Json
  | everyProject => .str "instance"
  | only projects => .obj [("projects", .arr (projects.members.map ProjectId.toJson))]

def Job.toJson (j : Job) : Json :=
  .obj
    [("id", j.id.toJson), ("project_id", j.project.toJson), ("tags", Tags.toJson j.tags),
      ("state", j.state.toJson), ("enqueued_at", Json.ofOption Timestamp.toJson j.enqueuedAt?),
      ("claimed_by", Json.ofOption WorkerId.toJson j.claimedBy?),
      ("updated_at", j.updatedAt.toJson)]

def Worker.toJson (w : Worker) : Json :=
  .obj
    [("id", w.id.toJson), ("tags", Tags.toJson w.tags), ("capacity", .nat w.capacity.toNat),
      ("running", .nat w.running.toNat), ("last_contact", w.lastContact.toJson),
      ("last_claimed_at", Json.ofOption Timestamp.toJson w.lastClaimedAt?),
      ("scope", w.scope.toJson), ("run_untagged", .bool w.runUntagged)]

def QueueEntry.toJson (e : QueueEntry) : Json :=
  .obj
    [("job_id", e.job.toJson), ("project_id", e.project.toJson), ("tags", Tags.toJson e.tags),
      ("enqueued_at", e.enqueuedAt.toJson), ("sequence", .nat e.sequence.toNat)]

def Receipt.toJson (t : Receipt) : Json :=
  .obj [("job_id", t.job.toJson), ("sequence", .nat t.sequence.toNat)]

def TickOutcome.toJson : TickOutcome → Json
  | claimed c =>
    .obj
      [("result", .str "claimed"), ("job_id", c.job.toJson), ("worker_id", c.worker.toJson),
        ("claimed_at", c.claimedAt.toJson)]
  | noEligibleWorker => .obj [("result", .str "no_eligible_worker")]
  | alreadyClaimed => .obj [("result", .str "already_claimed")]

def PassReport.toJson (r : PassReport) : Json :=
  .obj
    [("batches", .nat r.batches), ("ticked", .nat r.ticked), ("claimed", .nat r.claimed),
      ("no_eligible", .nat r.noEligible), ("already_claimed", .nat r.alreadyClaimed),
      ("errors", .nat r.errors), ("resumed", .bool r.resumed), ("completed", .bool r.completed)]

def SweepRecord.toJson (p : SweepRecord) : Json :=
  .obj
    [("cursor", Json.ofOption Cursor.toJson p.cursor?), ("status", .str p.phase.text),
      ("started_at", Json.ofOption Timestamp.toJson p.startedAt?),
      ("updated_at", Json.ofOption Timestamp.toJson p.updatedAt?)]

def Lease.toJson (t : Lease) : Json :=
  .obj [("key", .str t.key), ("expires_at", t.expiresAt.toJson)]

def Engine.Verdict.toJson (r : Engine.Verdict) : Json :=
  .obj
    [("applied", .bool r.applied),
      ("reason", Json.ofOption (fun e => .str e.message) r.reason?),
      ("effect", .str r.effect.name),
      ("dispatch", Json.ofOption TickOutcome.toJson r.dispatch?)]

def Departure.text : Departure → String
  | claimed => "claimed"
  | unclaimed => "unclaimed"

def Metric.toJson : Metric → Json
  | queuePush => .obj [("metric", .str "queue_push")]
  | queuePop kind => .obj [("metric", .str "queue_pop"), ("kind", .str kind.text)]
  | activeWorkers count => .obj [("metric", .str "active_workers"), ("count", .nat count.toNat)]
  | workerTick worker => .obj [("metric", .str "worker_tick"), ("worker_id", worker.toJson)]
  | duplicateEntry => .obj [("metric", .str "duplicate_entry")]
  | consistencyViolation => .obj [("metric", .str "consistency_violation")]

def FieldValue.toJson : FieldValue → Json
  | text s => .str s
  | number n => .nat n
  | flag b => .bool b

def Event.toJson (e : Event) : Json :=
  .obj
    [("level", .str e.level.text), ("msg", .str e.message),
      ("fields", .obj (e.fields.map fun (name, value) => (name, value.toJson)))]

def Counters.toJson (c : Counters) : Json :=
  .obj
    [("queue_push", .nat c.queuePush.toNat), ("queue_pop_claimed", .nat c.queuePopClaimed.toNat),
      ("queue_pop_unclaimed", .nat c.queuePopUnclaimed.toNat),
      ("active_workers", .nat c.activeWorkers.toNat),
      ("duplicate_entries", .nat c.duplicateEntries.toNat),
      ("consistency_violations", .nat c.consistencyViolations.toNat),
      ("worker_ticks",
        .obj (c.workerTicks.entries.map fun (worker, n) => (worker.text, .nat n.toNat)))]

end JobDispatch
