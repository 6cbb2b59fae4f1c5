import JobDispatch.CommandLine.Arguments

/-!
# Help

A page of help for each command: what it does, how it is called, and lists of its arguments and
options in two columns.
-/

namespace JobDispatch.CommandLine

/-- A list with a title. The entries have a term and a text. -/
structure HelpList where
  title : String
  entries : List (String × String)

structure HelpPage where
  about : String
  call : String
  lists : List HelpList

namespace HelpPage

def padTo (width : Nat) (term : String) : String :=
  term ++ String.ofList (List.replicate (width - term.length) ' ')

def listText (l : HelpList) : String :=
  let width := l.entries.foldl (fun width e => max width e.1.length) 0
  l.title ++ ":\n" ++
    String.join (l.entries.map fun e => "  " ++ padTo width e.1 ++ "  " ++ e.2 ++ "\n")

def text (p : HelpPage) : String :=
  p.about ++ "\n\nUsage: " ++ p.call ++ "\n" ++
    String.join (p.lists.map fun l => "\n" ++ listText l)

end HelpPage

def logEntry : String × String := ("    --log-json", "Emit logs as JSON lines")

def helpEntry : String × String := ("-h, --help", "Print help")

def pathEntry : String × String :=
  ("[PATH]", "Path to the configuration file [default: conveyor.kdl]")

def commandEntries : List (String × String) :=
  [("validate", "Validate a dispatch configuration"),
    ("config", "Print the effective configuration as JSON"),
    ("simulate", "Run an in-memory dispatch simulation"),
    ("help", "Print this message or the help of the given subcommand(s)")]

def Topic.page : Topic → HelpPage
  | overview =>
    ⟨"Conveyor job queue and dispatch CLI", "conveyor [OPTIONS] <COMMAND>",
      [⟨"Commands", commandEntries⟩, ⟨"Options", [logEntry, helpEntry]⟩]⟩
  | validate =>
    ⟨"Validate a dispatch configuration", "conveyor validate [OPTIONS] [PATH]",
      [⟨"Arguments", [pathEntry]⟩, ⟨"Options", [logEntry, helpEntry]⟩]⟩
  | printConfig =>
    ⟨"Print the effective configuration as JSON", "conveyor config [OPTIONS] [PATH]",
      [⟨"Arguments", [pathEntry]⟩, ⟨"Options", [logEntry, helpEntry]⟩]⟩
  | simulate =>
    ⟨"Run an in-memory dispatch simulation", "conveyor simulate [OPTIONS]",
      [⟨"Options",
        [("    --config <CONFIG>",
            "Configuration file; defaults apply when omitted [env: CONVEYOR_CONFIG=]"),
          logEntry,
          ("    --workers <WORKERS>", "Number of workers to register [default: 4]"),
          ("    --capacity <CAPACITY>", "Concurrent jobs per worker [default: 2]"),
          ("    --jobs <JOBS>", "Number of jobs to enqueue [default: 20]"),
          ("    --tag <TAGS>", "Tag carried by every worker and job (repeatable)"),
          ("    --rounds <ROUNDS>", "Maximum sweep rounds before giving up [default: 100]"),
          helpEntry]⟩]⟩
  | help =>
    ⟨"Print this message or the help of the given subcommand(s)", "conveyor help [COMMAND]...",
      [⟨"Arguments", [("[COMMAND]...", "Print help for the subcommand(s)")]⟩]⟩

end JobDispatch.CommandLine
