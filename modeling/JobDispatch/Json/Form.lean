import JobDispatch.Config.Json
import JobDispatch.Job
import JobDispatch.Time.Rfc3339

/-!
# The JSON forms of records

Each kind of record has a form: which values stand for one, and how it is written. A record is an
object with named fields, or an array of the fields in order. Fields that may be missing are then
`null`, and members without a meaning are dropped. `Form.normalize?` reads a value of a form and
writes it again.
-/

namespace JobDispatch

/-- The forms of the values that records are made of. -/
inductive Form
  /-- One of several names. -/
  | name (names : List String)
  | identifier
  | tags
  | scope
  | time
  | boolean
  /-- A whole number below a bound. -/
  | count (bound : Nat)

structure FieldForm where
  name : String
  form : Form
  optional : Bool

/-- The forms that are exchanged by themselves: single values and records. -/
inductive RecordForm
  | single (form : Form)
  | record (fields : List FieldForm)

namespace Form

def identifierOf? (j : Json) : Option Json :=
  j.str?.bind fun s => (Uuid.parse? s).map fun id => .str id.text

def countOf? (bound : Nat) : Json → Option Json
  | .int n => if 0 ≤ n ∧ n < bound then some (.int n) else none
  | _ => none

/-- All projects, or a set of them. -/
def scopeOf? : Json → Option Json
  | .obj [("projects", .arr items)] => do
    let ids ← items.mapM fun item => item.str?.bind Uuid.parse?
    let projects := SortedSet.ofList (ids.map ProjectId.mk)
    return .obj [("projects", .arr (projects.members.map fun p => .str p.text))]
  | j => if j.name? = some "instance" then some (.str "instance") else none

def tagsOf? : Json → Option Json
  | .arr items =>
    (items.mapM Json.str?).map fun tags => .arr ((SortedSet.ofList tags).members.map .str)
  | _ => none

/-- The value of a form in its written form, if it is one. -/
def normalize? : Form → Json → Option Json
  | name names, j => j.name?.bind fun s => if s ∈ names then some (.str s) else none
  | identifier, j => identifierOf? j
  | tags, j => tagsOf? j
  | scope, j => scopeOf? j
  | time, j => j.str?.bind fun s => (Instant.parse? s).map fun t => .str t.text
  | boolean, j => j.bool?.map .bool
  | count bound, j => countOf? bound j

end Form

namespace FieldForm

def required (name : String) (form : Form) : FieldForm := ⟨name, form, false⟩

def nullable (name : String) (form : Form) : FieldForm := ⟨name, form, true⟩

def normalize? (f : FieldForm) : Option Json → Option (String × Json)
  | none => if f.optional then some (f.name, .null) else none
  | some .null =>
    if f.optional then some (f.name, .null) else (f.form.normalize? .null).map fun v => (f.name, v)
  | some j => (f.form.normalize? j).map fun v => (f.name, v)

end FieldForm

namespace RecordForm

def normalize? : RecordForm → Json → Option Json
  | single form, j => form.normalize? j
  | record fields, j => do
    let found ← j.fields? (fields.map FieldForm.name)
    let members ← (fields.zip found).mapM fun (f, v) => f.normalize? v
    return .obj members

/-! ### The forms of the records of the dispatch core -/

def stateName : Form := .name (JobState.all.map JobState.text)

def word32 : Form := .count UInt32.size

def word64 : Form := .count UInt64.size

def jobState : RecordForm := single stateName

def queueChange : RecordForm := single (.name (QueueChange.all.map QueueChange.name))

def trigger : RecordForm := single (.name (Trigger.all.map Trigger.text))

def tags : RecordForm := single .tags

def scope : RecordForm := single .scope

def cursor : RecordForm := single word64

def transition : RecordForm := record [.required "from" stateName, .required "to" stateName]

def jobDraft : RecordForm :=
  record [.required "id" .identifier, .required "project_id" .identifier, .required "tags" .tags]

def job : RecordForm :=
  record
    [.required "id" .identifier, .required "project_id" .identifier, .required "tags" .tags,
      .required "state" stateName, .nullable "enqueued_at" .time,
      .nullable "claimed_by" .identifier, .required "updated_at" .time]

def heartbeat : RecordForm :=
  record
    [.required "worker_id" .identifier, .required "tags" .tags, .required "capacity" word32,
      .required "contact_time" .time, .required "scope" .scope, .required "run_untagged" .boolean]

def worker : RecordForm :=
  record
    [.required "id" .identifier, .required "tags" .tags, .required "capacity" word32,
      .required "running" word32, .required "last_contact" .time,
      .nullable "last_claimed_at" .time, .required "scope" .scope,
      .required "run_untagged" .boolean]

def queueEntry : RecordForm :=
  record
    [.required "job_id" .identifier, .required "project_id" .identifier, .required "tags" .tags,
      .required "enqueued_at" .time, .required "sequence" word64]

def receipt : RecordForm := record [.required "job_id" .identifier, .required "sequence" word64]

end RecordForm

end JobDispatch
