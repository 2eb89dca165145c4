import Outlining.Bytecode.Validity
import Outlining.Document.Bytecode
import Outlining.Document.Options
import Outlining.Toml.Parse

namespace Outlining.Document

open Outlining.Bytecode

/-- What a text is read as. -/
inductive Subject where
  | options
  | program
deriving DecidableEq

def Subject.name : Subject → String
  | .options => "options"
  | .program => "program"

inductive LoadError where
  /-- The text is no TOML, or does not have the form of its subject. -/
  | malformed (subject : Subject)
  | invalid (reason : String)
deriving DecidableEq

def LoadError.message : LoadError → String
  | .malformed subject => "Failed to parse " ++ subject.name ++ ": malformed document"
  | .invalid reason => invalidConfiguration reason

def tomlSetting : Setting := ⟨.toml, false⟩

/-- Loads options; those left out are taken from `standard`. -/
def loadOptions (standard : Options) (text : String) : Except LoadError Options :=
  match (Toml.parse text).bind (readOptionsFile standard tomlSetting) with
  | none => .error (.malformed .options)
  | some options =>
    match options.defect? with
    | some defect => .error (.invalid defect.message)
    | none => .ok options

def loadProgram (text : String) : Except LoadError Program :=
  match (Toml.parse text).bind (readProgram tomlSetting) with
  | none => .error (.malformed .program)
  | some program =>
    match program.complaint? with
    | some complaint => .error (.invalid complaint)
    | none => .ok program

end Outlining.Document
