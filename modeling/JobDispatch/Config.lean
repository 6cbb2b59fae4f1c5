import JobDispatch.Time.Span

/-!
# Configuration

How queued jobs are handed out: on enqueueing, in sweeps or both, with the limits of workers,
sweeps and leases. A configuration is valid if its counts are positive, its spans are positive and
at most a hundred years, and a lease lasts at least as long as the time between two sweeps.
-/

namespace JobDispatch

/-- When queued jobs are offered to workers. -/
inductive Trigger
  /-- Right after each enqueueing. -/
  | event
  /-- Only in sweeps. -/
  | sweep
  | both
deriving DecidableEq

namespace Trigger

def text : Trigger → String
  | event => "event"
  | sweep => "sweep"
  | both => "both"

/-- The name with a capital letter. -/
def title : Trigger → String
  | event => "Event"
  | sweep => "Sweep"
  | both => "Both"

def all : List Trigger := [event, sweep, both]

def atOnce : Trigger → Bool
  | event | both => true
  | sweep => false

def inSweeps : Trigger → Bool
  | sweep | both => true
  | event => false

end Trigger

inductive ConfigField
  | mode
  | staleThreshold
  | untaggedOnly
  | interval
  | batchSize
  | concurrency
  | maxBatches
  | leaseTimeout
deriving DecidableEq

def ConfigField.path : ConfigField → String
  | mode => "dispatch.mode"
  | staleThreshold => "dispatch.stale-worker-threshold"
  | untaggedOnly => "dispatch.untagged-workers-accept-untagged-only"
  | interval => "sweep.interval"
  | batchSize => "sweep.batch-size"
  | concurrency => "sweep.concurrency"
  | maxBatches => "sweep.max-batches"
  | leaseTimeout => "sweep.lease-timeout"

inductive BadValue
  | unknownMode (name : String)
  | notBoolean
  | notCount
  | zero
  | overLimit
  | underInterval
deriving DecidableEq

def BadValue.text : BadValue → String
  | unknownMode name => "unknown mode: " ++ name ++ " (expected event, sweep or both)"
  | notBoolean => "expected a boolean"
  | notCount => "must be a non-negative integer"
  | zero => "must be greater than zero"
  | overLimit => "must not exceed 876000h"
  | underInterval => "must be at least the sweep interval"

inductive FileError
  | notFound
  /-- The path goes on after a file. -/
  | notDirectory
  | isDirectory
  | nameTooLong
  | notPermitted
  /-- The bytes of the file are not the code of a text. -/
  | notText
deriving DecidableEq

def FileError.message : FileError → String
  | notFound => "No such file or directory (os error 2)"
  | notDirectory => "Not a directory (os error 20)"
  | isDirectory => "Is a directory (os error 21)"
  | nameTooLong => "File name too long (os error 36)"
  | notPermitted => "Permission denied (os error 13)"
  | notText => "stream did not contain valid UTF-8"

inductive ConfigError
  /-- The text is not a document. -/
  | syntaxError
  /-- The setting has no value of its kind. -/
  | missingField (field : ConfigField)
  | invalidValue (field : ConfigField) (reason : BadValue)
  | invalidDuration (input : String)
  | unreadable (e : FileError)
deriving DecidableEq

namespace ConfigError

def syntaxCause : String := "Failed to parse KDL document"

def message : ConfigError → String
  | syntaxError => "KDL parse error: " ++ syntaxCause
  | missingField field => "missing required field: " ++ field.path
  | invalidValue field reason => "invalid value for " ++ field.path ++ ": " ++ reason.text
  | invalidDuration input => "invalid duration: " ++ input
  | unreadable e => "IO error: " ++ e.message

/-- The message, and after it that of the error beneath it if there is one. -/
def causes (e : ConfigError) : List String :=
  match e with
  | syntaxError => [e.message, syntaxCause]
  | unreadable cause => [e.message, cause.message]
  | _ => [e.message]

end ConfigError

def Trigger.parse (s : String) : Except ConfigError Trigger :=
  match Trigger.all.find? fun mode => mode.text == s with
  | some mode => .ok mode
  | none => .error (.invalidValue .mode (.unknownMode s))

/-- A written span as a setting. -/
def Span.parse (s : String) : Except ConfigError Span :=
  match Span.parse? s with
  | some span => .ok span
  | none => .error (.invalidDuration s)

structure Config where
  mode : Trigger
  /-- Workers that were silent for longer are passed over. -/
  staleThreshold : Span
  /-- If not set, workers without tags take all jobs. -/
  untaggedOnly : Bool
  interval : Span
  batchSize : UInt64
  /-- The number of entries of a sweep handled at once. -/
  concurrency : UInt64
  /-- A sweep stops after this many batches and is resumed by the next one. -/
  maxBatches? : Option UInt64
  leaseTimeout : Span
deriving DecidableEq

namespace Config

/-- The longest span that a setting may have: a hundred years. -/
def maxSpan : Span := Span.ofSeconds (100 * 365 * 24 * 60 * 60)

def standard : Config where
  mode := .both
  staleThreshold := Span.ofSeconds (60 * 60)
  untaggedOnly := true
  interval := Span.ofSeconds 60
  batchSize := 1000
  concurrency := 4
  maxBatches? := none
  leaseTimeout := Span.ofSeconds (10 * 60)

instance : Inhabited Config := ⟨standard⟩

def checkSpan (field : ConfigField) (s : Span) : Except ConfigError Unit :=
  if s.nanos = 0 then .error (.invalidValue field .zero)
  else if maxSpan.nanos < s.nanos then .error (.invalidValue field .overLimit)
  else .ok ()

/-- The first bound that a configuration violates, in the order counts, spans, lease. -/
def validate (c : Config) : Except ConfigError Unit := do
  if c.batchSize = 0 then throw (.invalidValue .batchSize .zero)
  if c.concurrency = 0 then throw (.invalidValue .concurrency .zero)
  if c.maxBatches? = some 0 then throw (.invalidValue .maxBatches .zero)
  checkSpan .staleThreshold c.staleThreshold
  checkSpan .interval c.interval
  checkSpan .leaseTimeout c.leaseTimeout
  if c.leaseTimeout.nanos < c.interval.nanos then throw (.invalidValue .leaseTimeout .underInterval)

end Config

end JobDispatch
