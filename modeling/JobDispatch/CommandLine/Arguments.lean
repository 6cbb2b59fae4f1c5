import JobDispatch.Simulation
import JobDispatch.Text.Digits

/-!
# The arguments of the command line

A command is named by the first argument that is no option. Options start with two hyphens and may
stand anywhere after it; their values follow as the next argument or after an equals sign. After
`--` no argument is an option. Arguments are taken one by one from the left, and the first that is
refused, or asks for help, decides.
-/

namespace JobDispatch.CommandLine

inductive Command
  /-- Checks a configuration file. -/
  | validate (path : String)
  /-- Prints the configuration of a file with all its settings. -/
  | printConfig (path : String)
  /-- Runs a simulation under the configuration of a file, or the standard one. -/
  | simulate (path? : Option String) (simulation : Simulation)

inductive Topic
  | overview
  | validate
  | printConfig
  | simulate
  | help
deriving DecidableEq

/-- What a list of arguments asks for. -/
inductive Usage
  | run (command : Command)
  | help (topic : Topic)
  | mistaken

/-- Why a scan of arguments ends early. -/
inductive Interruption
  | help
  | mistake
deriving DecidableEq

/-- What a command accepts besides the options that all commands have. -/
structure Grammar (σ : Type) where
  /-- The names of its options. Each of them has a value. -/
  options : List String
  /-- Takes an option with its value, unless it is refused. -/
  setOption? : String → String → σ → Option σ
  /-- Takes an argument that is no option, unless there are too many. -/
  addArgument? : String → σ → Option σ

/-- The name and the value of an option that is written as one argument. -/
def splitOption (arg : String) : String × Option String :=
  let body := arg.toList.drop 2
  let name := body.takeWhile (· != '=')
  match body.drop name.length with
  | [] => (String.ofList name, none)
  | _ :: value => (String.ofList name, some (String.ofList value))

def isLongOption (arg : String) : Bool := ['-', '-'].isPrefixOf arg.toList

/-- The argument is read as an option. A single hyphen is none. -/
def isOption (arg : String) : Bool := ['-'].isPrefixOf arg.toList && arg != "-"

/-- The switch for logs in JSON. It has no value and may be given once. -/
def logSwitch : String := "log-json"

structure Position (σ : Type) where
  /-- What the arguments say so far. -/
  settled : σ
  /-- The switch was given. -/
  switched : Bool
  /-- There are no more options. -/
  plain : Bool
  /-- The option that the next argument is the value of. -/
  pending? : Option String

namespace Grammar

variable {σ : Type} (g : Grammar σ)

def setOption (name value : String) (p : Position σ) : Except Interruption (Position σ) :=
  match g.setOption? name value p.settled with
  | none => .error .mistake
  | some settled => .ok { p with settled, pending? := none }

def addArgument (arg : String) (p : Position σ) : Except Interruption (Position σ) :=
  match g.addArgument? arg p.settled with
  | none => .error .mistake
  | some settled => .ok { p with settled }

def takeLong (arg : String) (p : Position σ) : Except Interruption (Position σ) :=
  match splitOption arg with
  | ("help", none) => .error .help
  | (name, value?) =>
    if name = logSwitch then
      if value?.isSome || p.switched then .error .mistake else .ok { p with switched := true }
    else if name ∈ g.options then
      match value? with
      | some value => g.setOption name value p
      | none => .ok { p with pending? := some name }
    else .error .mistake

def take (p : Position σ) (arg : String) : Except Interruption (Position σ) :=
  match p.pending? with
  | some name => if isOption arg then .error .mistake else g.setOption name arg p
  | none =>
    if p.plain then g.addArgument arg p
    else if arg = "--" then .ok { p with plain := true }
    else if isLongOption arg then g.takeLong arg p
    else if isOption arg then
      .error (if ['-', 'h'].isPrefixOf arg.toList then .help else .mistake)
    else g.addArgument arg p

def scan (args : List String) (start : σ) : Except Interruption σ :=
  match args.foldlM g.take ⟨start, false, false, none⟩ with
  | .error e => .error e
  | .ok p => if p.pending?.isSome then .error .mistake else .ok p.settled

end Grammar

/-! ### The commands -/

def standardPath : String := "conveyor.kdl"

/-- A command with one path, which may be left out. -/
def pathGrammar : Grammar (Option String) where
  options := []
  setOption? _ _ _ := none
  addArgument? arg path? :=
    match path? with
    | none => some (some arg)
    | some _ => none

structure SimulationOptions where
  path? : Option String
  workers? : Option Nat
  capacity? : Option Nat
  jobs? : Option Nat
  tags : List String
  rounds? : Option Nat

namespace SimulationOptions

def empty : SimulationOptions := ⟨none, none, none, none, [], none⟩

/-- A count below a bound; a plus sign may stand before it. -/
def count? (bound : Nat) (value : String) : Option Nat :=
  let digits := match value.toList with
    | '+' :: rest => rest
    | cs => cs
  match Text.readNat? digits with
  | some n => if n < bound then some n else none
  | none => none

/-- A value for an option that may be given once. -/
def once {α : Type} (before? : Option α) (value? : Option α) : Option α :=
  match before? with
  | some _ => none
  | none => value?

def set? (name value : String) (o : SimulationOptions) : Option SimulationOptions :=
  match name with
  | "config" => (once o.path? (some value)).map fun v => { o with path? := some v }
  | "workers" =>
    (once o.workers? (count? UInt64.size value)).map fun v => { o with workers? := some v }
  | "capacity" =>
    (once o.capacity? (count? UInt32.size value)).map fun v => { o with capacity? := some v }
  | "jobs" => (once o.jobs? (count? UInt64.size value)).map fun v => { o with jobs? := some v }
  | "tag" => some { o with tags := o.tags ++ [value] }
  | "rounds" =>
    (once o.rounds? (count? UInt64.size value)).map fun v => { o with rounds? := some v }
  | _ => none

def simulation (o : SimulationOptions) : Simulation where
  workers := o.workers?.getD 4
  capacity := UInt32.ofNat (o.capacity?.getD 2)
  jobs := o.jobs?.getD 20
  tags := SortedSet.ofList o.tags
  rounds := o.rounds?.getD 100

end SimulationOptions

def simulationGrammar : Grammar SimulationOptions where
  options := ["config", "workers", "capacity", "jobs", "tag", "rounds"]
  setOption? := SimulationOptions.set?
  addArgument? _ _ := none

def usageOf {σ : Type} (topic : Topic) (command : σ → Command) : Except Interruption σ → Usage
  | .ok s => .run (command s)
  | .error .help => .help topic
  | .error .mistake => .mistaken

def helpUsage : List String → Usage
  | [] => .help .overview
  | ["validate"] => .help .validate
  | ["config"] => .help .printConfig
  | ["simulate"] => .help .simulate
  | ["help"] => .help .help
  | _ => .mistaken

def commandUsage (name : String) (args : List String) : Usage :=
  match name with
  | "validate" =>
    usageOf .validate (fun p => .validate (p.getD standardPath)) (pathGrammar.scan args none)
  | "config" =>
    usageOf .printConfig (fun p => .printConfig (p.getD standardPath)) (pathGrammar.scan args none)
  | "simulate" =>
    usageOf .simulate (fun o => .simulate o.path? o.simulation)
      (simulationGrammar.scan args .empty)
  | "help" => helpUsage args
  | _ => .mistaken

/-- Takes the arguments before the name of the command. -/
def usageAfter (switched : Bool) : List String → Usage
  | [] => .mistaken
  | arg :: args =>
    if isOption arg then
      if arg = "--help" ∨ ['-', 'h'].isPrefixOf arg.toList then .help .overview
      else if arg = "--" ++ logSwitch ∧ !switched then usageAfter true args
      else .mistaken
    else commandUsage arg args

def usage (args : List String) : Usage := usageAfter false args

end JobDispatch.CommandLine
