import Outlining.Phase
import Outlining.Template.Listing
import Outlining.Template.Signature

/-! The ways in which outlining may fail. Each of them says that two steps disagree with each other:
a window that cannot be outlined is no fault, it is left alone. -/
namespace Outlining

open Outlining.Bytecode

/-- A condition that the steps take for granted and check as they go. -/
inductive Assertion where
  /-- A template has one slot for every operand. -/
  | operandSlots
  /-- A window passes no more registers than allowed. -/
  | registerBudget
  /-- Outlines are built in the order of their templates. -/
  | templateOrder
  /-- An outline is called with one value for each parameter. -/
  | callArity
  /-- The last instruction of a window is an operation. -/
  | windowEnd
  /-- A method index fits into 32 bits. -/
  | methodIndex
deriving DecidableEq

inductive Fault where
  /-- A window to be rewritten was not recorded as a site. -/
  | siteNotFound (method : Reference) (block : Label) (start stop : Nat)
  /-- A template has no outline. -/
  | signatureMismatch (template : Template) (flaw : Template.Flaw)
  /-- Sites of an outline were left after rewriting. -/
  | sitesRemaining (outline : Reference) (remaining : Nat)
  /-- Outlines were asked for before any site was recorded. -/
  | noSitesRecorded
  /-- A step was taken out of order. -/
  | passOrder (expected actual : Phase)
  | assertion (assertion : Assertion)
deriving DecidableEq

def Fault.message : Fault → String
  | .siteNotFound method block start stop =>
    "Outline site " ++ method.text ++ "[" ++ toString start ++ ".." ++ toString stop
      ++ ") in block " ++ toString block ++ " was not recorded"
  | .signatureMismatch template flaw =>
    "Cannot build outline signature (" ++ flaw.text ++ "):\n" ++ template.listing
  | .sitesRemaining outline remaining =>
    toString remaining ++ " outline site(s) of " ++ outline.text ++ " were not found again"
  | .noSitesRecorded => "Outline holder requested before any site was recorded"
  | .passOrder expected actual =>
    "Outlining pass out of order: expected " ++ expected.name ++ ", found " ++ actual.name
  | .assertion _ => "Outlining broke an assertion"

end Outlining
