import Outlining.CommandLine.Arguments
import Outlining.Document.Load
import Outlining.Pipeline

namespace Outlining.CommandLine

open Outlining.Bytecode Outlining.Text

structure ReadFailure where
  /-- Whether there is such a file. -/
  isPresent : Bool
  reason : String
deriving DecidableEq

structure WriteFailure where
  /-- Whether the file could be opened, so that only its text is refused. -/
  isOpened : Bool
  reason : String
deriving DecidableEq

/-- What a run finds around it. -/
structure Surroundings where
  read : String → Except ReadFailure String
  /-- The standard input, or why it cannot be read. -/
  standardInput : Except String String
  /-- The number of threads, if none is asked for. -/
  threads : Nat

structure Outcome where
  status : Nat
  out : String
  err : String
  /-- A file that is to be written, and its content. -/
  file : Option (String × String)
deriving DecidableEq

/-- Why a run ends without a listing. -/
inductive Failure where
  | usage (message : String)
  | fault (fault : Fault)
deriving DecidableEq

def version : String := "0.2.0"

def usage : String := unlines [
  "Outliner v" ++ version,
  "",
  "USAGE:",
  "    outliner [OPTIONS] <PROGRAM>",
  "",
  "OPTIONS:",
  "    -h, --help             Print this help message",
  "    -V, --version          Print version information",
  "    -c, --config <FILE>    Read the [outline] table from FILE",
  "    -o, --output <FILE>    Write the listing to FILE (default: stdout)",
  "    -t, --threads <N>      Worker threads (default: OUTLINER_THREADS or CPU count)",
  "    --threshold <N>        Method and site frequency threshold",
  "    --min-size <N>         Minimum operations per outline",
  "    --stats                Print statistics to stderr",
  "    -v, --verbose          Log pass progress (repeat for more detail)",
  "    -q, --quiet            Only log errors",
  "",
  "ARGUMENTS:",
  "    <PROGRAM>              Program in TOML form (use '-' for stdin)",
  "",
  "EXAMPLES:",
  "    outliner demos/program.toml",
  "    outliner -c demos/outline.toml --stats demos/program.toml",
  "    cat program.toml | outliner --threshold 2 -"]

def configured (surroundings : Surroundings) (config : Option String) : Except String Options :=
  let standard := Options.standard surroundings.threads
  match config with
  | none => .ok standard
  | some path =>
    match surroundings.read path with
    | .error failure => .error ("Failed to read '" ++ path ++ "': " ++ failure.reason)
    | .ok text =>
      match Document.loadOptions standard text with
      | .error error => .error error.message
      | .ok options => .ok options

/-- The options with those of the command line in place of those of the file. -/
def override (arguments : Arguments) (options : Options) : Options :=
  let options := { options with threads := arguments.threads.getD options.threads }
  let options := match arguments.threshold with
    | some threshold => options.withThresholds threshold
    | none => options
  { options with minSize := arguments.minSize.getD options.minSize }

def chosenOptions (surroundings : Surroundings) (arguments : Arguments) :
    Except String Options := do
  let options := override arguments (← configured surroundings arguments.config)
  match options.complaint? with
  | some complaint => .error complaint
  | none => .ok options

/-- The text of the program; a dash stands for the standard input. -/
def inputText (surroundings : Surroundings) (input : String) : Except String String :=
  if input = "-" then
    match surroundings.standardInput with
    | .ok text => .ok text
    | .error reason => .error ("Failed to read from stdin: " ++ reason)
  else
    match surroundings.read input with
    | .ok text => .ok text
    | .error failure =>
      if failure.isPresent then
        .error ("Failed to read file '" ++ input ++ "': " ++ failure.reason)
      else .error ("Input file not found: " ++ input)

/-- The listing of a run: the holder, if there is one, and all methods that were not made by
outlining. -/
def listing (holder : Option Holder) (program : Program) : String :=
  (match holder with
    | some holder => holder.listing ++ "\n"
    | none => "")
    ++ String.join ((program.methods.filter (!·.synthetic)).map (·.listing ++ "\n"))

def outline (surroundings : Surroundings) (arguments : Arguments) (input : String) :
    Except Failure (String × Statistics) := do
  let options ← (chosenOptions surroundings arguments).mapError .usage
  let text ← (inputText surroundings input).mapError .usage
  let program ← (Document.loadProgram text).mapError (.usage ·.message)
  match Pipeline.run.run (.start options program) with
  | .error fault _ => .error (.fault fault)
  | .ok holder pipeline => .ok (listing holder pipeline.program, pipeline.statistics)

def misused (message : String) : Outcome :=
  ⟨1, "", "Error: " ++ message ++ "\n\n" ++ usage, none⟩

def Failure.outcome : Failure → Outcome
  | .usage message => ⟨1, "", "Error: " ++ message ++ "\n", none⟩
  | .fault (.assertion assertion) =>
    ⟨101, "", (Fault.assertion assertion).message ++ "\n", none⟩
  | .fault cause => ⟨2, "", "internal error: " ++ cause.message ++ "\n", none⟩

def answer (surroundings : Surroundings) : Request → Outcome
  | .help => ⟨0, "", usage, none⟩
  | .version => ⟨0, "Outliner " ++ version ++ "\n", "", none⟩
  | .run arguments =>
    match arguments.input with
    | none => misused "Missing input program"
    | some input =>
      match outline surroundings arguments input with
      | .error failure => failure.outcome
      | .ok (text, statistics) =>
        let err := if arguments.showStatistics then statistics.text ++ "\n" else ""
        match arguments.output with
        | some path => ⟨0, "", err, some (path, text)⟩
        | none => ⟨0, text, err, none⟩

def run (surroundings : Surroundings) (arguments : List String) : Outcome :=
  match request arguments with
  | .error error => misused error.message
  | .ok request => answer surroundings request

def WriteFailure.message (failure : WriteFailure) (path : String) : String :=
  (if failure.isOpened then "Failed to write to output file '"
    else "Failed to create output file '") ++ path ++ "': " ++ failure.reason

def Outcome.unwritable (outcome : Outcome) (path : String) (failure : WriteFailure) : Outcome :=
  { outcome with
    status := 1
    err := outcome.err ++ "Error: " ++ failure.message path ++ "\n"
    file := none }

end Outlining.CommandLine
