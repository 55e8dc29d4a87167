import Paging.Cli.Run

/-!
The command line program: it carries out the plan of a call.
-/

namespace Paging.Cli

/-- The variables of the environment that options look at. -/
def variableNames : List String := Flag.all.filterMap Flag.envName?

/-- The number of a system's error, which may be reported with its sign changed. -/
def errorNumber (code : UInt32) : UInt32 := min code (0 - code)

def readErrorOf (error : IO.Error) : ReadError :=
  match error with
  | .noFileOrDirectory .. => .notFound
  | .permissionDenied .. => .permissionDenied
  | .inappropriateType _ code details =>
    if errorNumber code = 20 then .notADirectory
    else if errorNumber code = 21 then .isADirectory
    else .other details
  | .invalidArgument _ code details => if errorNumber code = 36 then .nameTooLong else .other details
  | error => .other error.toString

def readBytes (path : String) : IO (Except ReadError (List UInt8)) := do
  try
    let bytes ← IO.FS.readBinFile path
    return .ok bytes.data.toList
  catch error => return .error (readErrorOf error)

def Outcome.write (outcome : Outcome) : IO UInt32 := do
  (← IO.getStdout).putStr outcome.output
  (← IO.getStderr).putStr outcome.errors
  return outcome.exitCode

end Paging.Cli

open Paging.Cli in
def main (arguments : List String) : IO UInt32 := do
  let settings ← variableNames.mapM fun name => return (name, ← IO.getEnv name)
  match plan (fun name => (settings.lookup name).join) arguments with
  | .finished outcome => outcome.write
  | .reads path outcome => (outcome (← readBytes path)).write
