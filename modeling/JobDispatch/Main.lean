import JobDispatch.CommandLine

/-!
# The program

Reads the configuration file, prints the outcome and ends with its code.
-/

namespace JobDispatch

def FileError.ofIO : IO.Error → FileError
  | .permissionDenied .. => .notPermitted
  | .inappropriateType _ code _ => if code = 21 then .isDirectory else .notDirectory
  | .invalidArgument .. => .nameTooLong
  | .userError _ => .notText
  | _ => .notFound

def readContents (path : String) : IO (Except FileError String) := do
  try
    return .ok (← IO.FS.readFile path)
  catch e => return .error (FileError.ofIO e)

end JobDispatch

open JobDispatch in
def main (args : List String) : IO UInt32 := do
  let usage := CommandLine.usage args
  let contents ← match usage.path? with
    | none => pure (.error .notFound)
    | some path => readContents path
  let outcome := usage.outcome fun _ => contents
  IO.print outcome.output
  IO.eprint outcome.errors
  return UInt32.ofNat outcome.code
