import Outlining.CommandLine.Run

namespace Outlining.CommandLine

/-- The number of an error of the operating system; some calls negate it. -/
def errorNumber (code : UInt32) : UInt32 := min code (0 - code)

/-- Whether an error says that a path leads nowhere. -/
def isAbsence : IO.Error → Bool
  | .noFileOrDirectory .. => true
  | .inappropriateType _ code _ => errorNumber code == 20
  | .invalidArgument _ code _ => errorNumber code == 36
  | _ => false

/-- The text of the operating system for an error, with its number. -/
def systemText (code : UInt32) (details : String) : String :=
  let number := errorNumber code
  let text :=
    if number == 2 then "No such file or directory"
    else if number == 20 then "Not a directory"
    else if number == 36 then "File name too long"
    else details
  text ++ " (os error " ++ toString number ++ ")"

def systemReason : IO.Error → String
  | .noFileOrDirectory _ code details => systemText code details
  | .inappropriateType _ code details => systemText code details
  | .invalidArgument _ code details => systemText code details
  | .permissionDenied _ code details => systemText code details
  | .resourceExhausted _ code details => systemText code details
  | .userError _ => "stream did not contain valid UTF-8"
  | error => toString error

def readFile (path : String) : IO (Except ReadFailure String) := do
  try return .ok (← IO.FS.readFile path)
  catch error => return .error ⟨!isAbsence error, systemReason error⟩

def namedFiles (arguments : List String) : IO (List (String × Except ReadFailure String)) :=
  match request arguments with
  | .ok (.run arguments) =>
    (arguments.config.toList ++ arguments.input.toList).mapM fun path => do
      return (path, ← readFile path)
  | _ => pure []

/-- Everything that a run may look at. -/
def surroundings (arguments : List String) : IO Surroundings := do
  let files ← namedFiles arguments
  let standardInput ← match request arguments with
    | .ok (.run { input := some "-", .. }) =>
      try pure (.ok (← (← IO.getStdin).readToEnd))
      catch error => pure (.error (systemReason error))
    | _ => pure (.ok "")
  let threads := Options.threadsFrom (← IO.getEnv "OUTLINER_THREADS")
  return {
    read := fun path => (files.lookup path).getD (.error ⟨false, ""⟩)
    standardInput := standardInput
    threads := threads.getD 1 }

def writeText (handle : IO.FS.Handle) (text : String) : IO Unit := do
  handle.putStr text
  handle.flush

def writeFile (path content : String) : IO (Except WriteFailure Unit) := do
  match ← (IO.FS.Handle.mk path .write).toBaseIO with
  | .error error => return .error ⟨false, systemReason error⟩
  | .ok handle =>
    match ← (writeText handle content).toBaseIO with
    | .error error => return .error ⟨true, systemReason error⟩
    | .ok () => return .ok ()

def write (outcome : Outcome) : IO Outcome :=
  match outcome.file with
  | none => pure outcome
  | some (path, content) => do
    match ← writeFile path content with
    | .ok () => return outcome
    | .error failure => return outcome.unwritable path failure

end Outlining.CommandLine

open Outlining.CommandLine in
def main (arguments : List String) : IO UInt32 := do
  let outcome ← write (run (← surroundings arguments) arguments)
  (← IO.getStderr).putStr outcome.err
  (← IO.getStdout).putStr outcome.out
  return outcome.status.toUInt32
