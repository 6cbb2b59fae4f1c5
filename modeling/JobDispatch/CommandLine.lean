import JobDispatch.CommandLine.Help
import JobDispatch.Config.Document
import JobDispatch.Config.Json
import JobDispatch.Json.Record

/-!
# The command line

What the program prints for its arguments, and the code it ends with: 0 on success, 1 on failure, 2
if the arguments make no sense. Commands look the configuration file up among the files there are.
The metrics that a simulation prints last are kept apart from the text before them.
-/

namespace JobDispatch.CommandLine

structure Outcome where
  code : Nat
  /-- What is printed, up to the metrics. -/
  text : String
  counters? : Option Counters
  /-- What is printed to the error output. -/
  errors : String

namespace Outcome

def success (text : String) : Outcome := ⟨0, text, none, ""⟩

def output (o : Outcome) : String :=
  match o.counters? with
  | none => o.text
  | some counters => o.text ++ counters.toJson.text ++ "\n"

end Outcome

/-! ### Reports of failures -/

/-- A text over several lines with blanks before all lines but the first. -/
def hang (indent : String) (s : String) : String :=
  String.join (s.toList.map fun c => if c = '\n' then "\n" ++ indent else String.ofList [c])

/-- Causes beneath a failure. They are numbered if there are several. -/
def causesText : List String → String
  | [] => ""
  | [cause] => "\n\nCaused by:\n    " ++ hang "    " cause
  | causes =>
    "\n\nCaused by:" ++
      String.join (causes.zipIdx.map fun (cause, i) =>
        "\n    " ++ toString i ++ ": " ++ hang "       " cause)

def failureText (message : String) (causes : List String) : String :=
  "Error: " ++ message ++ causesText causes ++ "\n"

def failure (text message : String) (causes : List String) : Outcome :=
  ⟨1, text, none, failureText message causes⟩

/-! ### The commands -/

abbrev Files := String → Except FileError String

def configOf (files : Files) (path : String) : Except ConfigError Config :=
  match files path with
  | .ok contents => Config.parse contents
  | .error e => .error (.unreadable e)

def validate (files : Files) (path : String) : Outcome :=
  match configOf files path with
  | .ok c =>
    .success
      ("Configuration is valid\n  mode: " ++ c.mode.title ++ "\n  sweep batch size: " ++
        toString c.batchSize.toNat ++ "\n")
  | .error e => ⟨1, "Configuration error: " ++ e.message ++ "\n", none, ""⟩

def withConfig (files : Files) (path : String) (next : Config → Outcome) : Outcome :=
  match configOf files path with
  | .ok c => next c
  | .error e => failure "" ("Failed to load config file: " ++ path) e.causes

def printConfig (c : Config) : Outcome := .success (c.toJson.text ++ "\n")

def roundText (number : Nat) (r : Simulation.Round) : String :=
  "Round " ++ toString number ++ ": " ++ toString r.claimed ++ " claimed, " ++
    toString r.finished ++ " finished, " ++ toString r.waiting ++ " waiting\n"

def resultText (s : Simulation) (result : Simulation.Outcome) : String :=
  match result.queued? with
  | none => ""
  | some queued =>
    "Workers: " ++ toString s.workers ++ " (capacity " ++ toString s.capacity.toNat ++ ")\n" ++
      "Jobs: " ++ toString s.jobs ++ " (tags " ++ Tags.text s.tags ++ ")\n" ++
      "Queued after enqueue: " ++ toString queued ++ "\n" ++
      String.join (result.rounds.zipIdx.map fun (r, i) => roundText (i + 1) r)

def simulationFailure (text : String) : Simulation.Failure → Outcome
  | .enqueue e => failure text "Failed to enqueue job" [e.message]
  | .sweep e => failure text "Sweep failed" [e.message]
  | .queue e => failure text e.message []
  | .inconsistent r =>
    failure text
      ("Queue out of sync with job states: " ++ toString r.pendingWithoutEntry.length ++
        " pending without entry, " ++ toString r.entriesWithoutPending.length ++
        " entries without pending job")
      []

def simulate (s : Simulation) (setting : Simulation.Setting) (c : Config) : Outcome :=
  let (result, world) := s.run c setting
  let text := resultText s result
  match result.failure? with
  | some e => simulationFailure text e
  | none =>
    match world.sink with
    | .counting counters => ⟨0, text, some counters, ""⟩
    | _ => .success text

/-- The path of the file that a command reads. -/
def Command.path? : Command → Option String
  | validate path | printConfig path => some path
  | simulate path? _ => path?

def Command.run (files : Files) : Command → Outcome
  | validate path => CommandLine.validate files path
  | printConfig path => withConfig files path CommandLine.printConfig
  | simulate none s => CommandLine.simulate s .standard .standard
  | simulate (some path) s => withConfig files path (CommandLine.simulate s .standard)

/-- What is printed if the arguments make no sense. -/
def mistakenText : String := "error: the arguments make no sense; try '--help'\n"

def Usage.path? : Usage → Option String
  | run command => command.path?
  | _ => none

/-- What the program does on its arguments. -/
def Usage.outcome (files : Files) : Usage → Outcome
  | run command => command.run files
  | help topic => .success topic.page.text
  | mistaken => ⟨2, "", none, mistakenText⟩

end JobDispatch.CommandLine
