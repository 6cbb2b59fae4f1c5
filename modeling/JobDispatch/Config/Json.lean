import JobDispatch.Config
import JobDispatch.Json

/-!
# Configurations as JSON

A configuration is written as an object with one member for each setting, spans in their written
form. It is read from such an object, whose further members do not count, or from an array of the
settings in the same order.
-/

namespace JobDispatch

namespace Json

def count64? : Json → Option UInt64
  | .int n => if 0 ≤ n ∧ n.toNat < UInt64.size then some (UInt64.ofNat n.toNat) else none
  | _ => none

def bool? : Json → Option Bool
  | .bool b => some b
  | _ => none

def str? : Json → Option String
  | .str s => some s
  | _ => none

/-- One of several names, written as a string or as an object with the name as its only member and
`null` as its value. -/
def name? : Json → Option String
  | .str s => some s
  | .obj [(s, .null)] => some s
  | _ => none

/-- The values of a record: members of an object by name, or the items of an array in order. A
member that is not there is `none`. -/
def fields? (names : List String) : Json → Option (List (Option Json))
  | .obj members => some (names.map fun name => member? name members)
  | .arr items => if items.length = names.length then some (items.map some) else none
  | _ => none

end Json

def Trigger.ofJson? (j : Json) : Option Trigger :=
  j.name?.bind fun s => Trigger.all.find? fun mode => mode.text == s

def Span.ofJson? (j : Json) : Option Span := j.str?.bind Span.parse?

namespace Config

def memberNames : List String :=
  ["dispatch_mode", "stale_worker_threshold", "untagged_workers_accept_untagged_only",
    "sweep_interval", "sweep_batch_size", "sweep_concurrency", "sweep_max_batches",
    "lease_timeout"]

def toJson (c : Config) : Json :=
  .obj
    [("dispatch_mode", .str c.mode.text),
      ("stale_worker_threshold", .str c.staleThreshold.text),
      ("untagged_workers_accept_untagged_only", .bool c.untaggedOnly),
      ("sweep_interval", .str c.interval.text),
      ("sweep_batch_size", .nat c.batchSize.toNat),
      ("sweep_concurrency", .nat c.concurrency.toNat),
      ("sweep_max_batches", Json.ofOption (fun n => .nat n.toNat) c.maxBatches?),
      ("lease_timeout", .str c.leaseTimeout.text)]

/-- The cap on batches; `null` and a missing member mean that there is none. -/
def capOfJson? : Option Json → Option (Option UInt64)
  | none | some .null => some none
  | some j => j.count64?.map some

def ofJson? (j : Json) : Option Config :=
  match j.fields? memberNames with
  | some [some mode, some stale, some untagged, some interval, some batch, some concurrency, cap,
      some lease] => do
    return {
      mode := ← Trigger.ofJson? mode
      staleThreshold := ← Span.ofJson? stale
      untaggedOnly := ← untagged.bool?
      interval := ← Span.ofJson? interval
      batchSize := ← batch.count64?
      concurrency := ← concurrency.count64?
      maxBatches? := ← capOfJson? cap
      leaseTimeout := ← Span.ofJson? lease }
  | _ => none

end Config

end JobDispatch
