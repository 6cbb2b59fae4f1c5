import JobDispatch.Config
import JobDispatch.Kdl.Reader

/-!
# Configurations in documents

A document sets up a configuration by the children of its `dispatch` and `sweep` nodes. Settings
take effect in the order of the document, each on top of those before it, and the first that cannot
be read ends the reading. Nodes, children and arguments without a meaning are passed over. The
bounds are checked at the end.
-/

namespace JobDispatch.Config

/-- The setting that a child of a section stands for. -/
def fieldOf? (parent child : String) : Option ConfigField :=
  match parent with
  | "dispatch" =>
    match child with
    | "mode" => some .mode
    | "stale-worker-threshold" => some .staleThreshold
    | "untagged-workers-accept-untagged-only" => some .untaggedOnly
    | _ => none
  | "sweep" =>
    match child with
    | "interval" => some .interval
    | "batch-size" | "batch_size" => some .batchSize
    | "concurrency" => some .concurrency
    | "max-batches" | "max_batches" => some .maxBatches
    | "lease-timeout" | "lease_timeout" => some .leaseTimeout
    | _ => none
  | _ => none

/-- The string that a setting must have as its first argument. -/
def stringOf (field : ConfigField) (node : Kdl.Node) : Except ConfigError String :=
  match node.firstArgument?.bind Kdl.Value.string? with
  | some s => .ok s
  | none => .error (.missingField field)

def spanOf (field : ConfigField) (node : Kdl.Node) : Except ConfigError Span :=
  (stringOf field node).bind Span.parse

def countOf (field : ConfigField) (node : Kdl.Node) : Except ConfigError UInt64 :=
  match node.firstArgument?.bind Kdl.Value.int? with
  | none => .error (.missingField field)
  | some n =>
    if 0 ≤ n ∧ n.toNat < UInt64.size then .ok (UInt64.ofNat n.toNat)
    else .error (.invalidValue field .notCount)

def booleanOf (field : ConfigField) (node : Kdl.Node) : Except ConfigError Bool :=
  match node.firstArgument?.bind Kdl.Value.bool? with
  | some b => .ok b
  | none => .error (.invalidValue field .notBoolean)

def set (c : Config) (field : ConfigField) (node : Kdl.Node) : Except ConfigError Config :=
  match field with
  | .mode =>
    ((stringOf field node).bind Trigger.parse).map fun v => { c with mode := v }
  | .staleThreshold => (spanOf field node).map fun v => { c with staleThreshold := v }
  | .untaggedOnly => (booleanOf field node).map fun v => { c with untaggedOnly := v }
  | .interval => (spanOf field node).map fun v => { c with interval := v }
  | .batchSize => (countOf field node).map fun v => { c with batchSize := v }
  | .concurrency => (countOf field node).map fun v => { c with concurrency := v }
  | .maxBatches => (countOf field node).map fun v => { c with maxBatches? := some v }
  | .leaseTimeout => (spanOf field node).map fun v => { c with leaseTimeout := v }

/-- Takes over the settings among the children of a section. -/
def readSection (parent : String) : List Kdl.Node → Config → Except ConfigError Config
  | [], c => .ok c
  | node :: nodes, c =>
    match fieldOf? parent node.name with
    | none => readSection parent nodes c
    | some field => (c.set field node).bind (readSection parent nodes)

def readDocument : Kdl.Document → Config → Except ConfigError Config
  | [], c => .ok c
  | node :: nodes, c => (readSection node.name node.children c).bind (readDocument nodes)

def ofDocument (document : Kdl.Document) : Except ConfigError Config :=
  (readDocument document standard).bind fun c => c.validate.map fun _ => c

def parse (text : String) : Except ConfigError Config :=
  match Kdl.Document.parse? text with
  | none => .error .syntaxError
  | some document => ofDocument document

end JobDispatch.Config
