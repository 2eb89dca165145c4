import Outlining.Text.Numeral

/-! Arguments are read from left to right. An option that takes a value takes the next argument,
whatever it looks like; of a repeated option the last value counts. The first argument that asks for
help or for the version ends the reading, and so does the first error. -/
namespace Outlining.CommandLine

structure Arguments where
  input : Option String
  output : Option String
  config : Option String
  threads : Option Nat
  threshold : Option Nat
  minSize : Option Nat
  showStatistics : Bool
  /-- How often more detail was asked for, at most `verbosityLimit` times. -/
  verbosity : Nat
  quiet : Bool
deriving DecidableEq, Inhabited

def Arguments.none : Arguments :=
  ⟨.none, .none, .none, .none, .none, .none, false, 0, false⟩

inductive Request where
  | help
  | version
  | run (arguments : Arguments)
deriving DecidableEq

inductive NumberOption where
  | threads
  | threshold
  | minSize
deriving DecidableEq

def NumberOption.flag : NumberOption → String
  | .threads => "--threads"
  | .threshold => "--threshold"
  | .minSize => "--min-size"

inductive ArgumentError where
  | missingOutput
  | missingConfig
  | missingNumber (option : NumberOption)
  | invalidNumber (option : NumberOption) (value : String)
  | unknownOption (argument : String)
  | severalInputs
deriving DecidableEq

def ArgumentError.message : ArgumentError → String
  | .missingOutput => "Missing output file after -o"
  | .missingConfig => "Missing config file after -c"
  | .missingNumber option => "Missing value after " ++ option.flag
  | .invalidNumber option value => "Invalid value for " ++ option.flag ++ ": " ++ value
  | .unknownOption argument => "Unknown option: " ++ argument
  | .severalInputs => "Multiple input files specified"

def verbosityLimit : Nat := 255

/-- By how much an argument raises the verbosity: `--verbose` by one, a dash with letters `v` by
their number. -/
def verbosityOf? (argument : String) : Option Nat :=
  if argument = "--verbose" then some 1
  else
    match argument.toList with
    | '-' :: letters =>
      if !letters.isEmpty && letters.all (· == 'v') then some (min verbosityLimit letters.length)
      else none
    | _ => none

namespace Arguments

def raise (arguments : Arguments) (amount : Nat) : Arguments :=
  { arguments with verbosity := min verbosityLimit (arguments.verbosity + amount) }

def setNumber (arguments : Arguments) (option : NumberOption) (value : Nat) : Arguments :=
  match option with
  | .threads => { arguments with threads := some value }
  | .threshold => { arguments with threshold := some value }
  | .minSize => { arguments with minSize := some value }

end Arguments

inductive Kind where
  | verbosity (amount : Nat)
  | help
  | version
  | output
  | config
  | number (option : NumberOption)
  | statistics
  | quiet
  | input
  | unknown
deriving DecidableEq

/-- An argument with a dash in front is an option, except for a dash alone. -/
def Kind.of (argument : String) : Kind :=
  match verbosityOf? argument with
  | some amount => .verbosity amount
  | none =>
    if argument = "-h" ∨ argument = "--help" then .help
    else if argument = "-V" ∨ argument = "--version" then .version
    else if argument = "-o" ∨ argument = "--output" then .output
    else if argument = "-c" ∨ argument = "--config" then .config
    else if argument = "-t" ∨ argument = "--threads" then .number .threads
    else if argument = "--threshold" then .number .threshold
    else if argument = "--min-size" then .number .minSize
    else if argument = "--stats" then .statistics
    else if argument = "-q" ∨ argument = "--quiet" then .quiet
    else if argument.toList.head? = some '-' ∧ argument ≠ "-" then .unknown
    else .input

/-- Reads the arguments that are left, given what those before them asked for. -/
def readArguments (arguments : Arguments) : List String → Except ArgumentError Request
  | [] => .ok (.run arguments)
  | argument :: rest =>
    match Kind.of argument with
    | .verbosity amount => readArguments (arguments.raise amount) rest
    | .help => .ok .help
    | .version => .ok .version
    | .output =>
      match rest with
      | [] => .error .missingOutput
      | path :: rest => readArguments { arguments with output := some path } rest
    | .config =>
      match rest with
      | [] => .error .missingConfig
      | path :: rest => readArguments { arguments with config := some path } rest
    | .number option =>
      match rest with
      | [] => .error (.missingNumber option)
      | value :: rest =>
        match Text.word? value with
        | some number => readArguments (arguments.setNumber option number) rest
        | none => .error (.invalidNumber option value)
    | .statistics => readArguments { arguments with showStatistics := true } rest
    | .quiet => readArguments { arguments with quiet := true } rest
    | .unknown => .error (.unknownOption argument)
    | .input =>
      match arguments.input with
      | some _ => .error .severalInputs
      | none => readArguments { arguments with input := some argument } rest

/-- What a list of arguments asks for, the name of the program left out. -/
def request (arguments : List String) : Except ArgumentError Request :=
  readArguments .none arguments

end Outlining.CommandLine
