import Outlining.Template.Basic

/-! A template has a signature only if its slots can be wired up: every operand has a slot, the
temporary is read only after a value was produced, arguments exist, are all read and none of them is
void, and a value to return is produced if one is returned. -/
namespace Outlining.Template

open Outlining.Bytecode

/-- A reason for which a template has no outline. -/
inductive Flaw where
  | slotCount (operands slots : Nat)
  | voidArgument (descriptor : Descriptor)
  | unwrittenTemporary (operation : Operation)
  | missingArgument (index : Nat)
  | unreadArgument (index : Nat)
  | noResult
  /-- An argument has no value type. -/
  | untypedArgument
  /-- An operand can be given no value. -/
  | unresolvedOperand
  | operandCount
  | nothingToReturn
deriving DecidableEq

def Flaw.text : Flaw → String
  | .slotCount operands slots =>
    toString operands ++ " operand slots but " ++ toString slots ++ " argument map entries"
  | .voidArgument descriptor => "argument of type " ++ descriptor.text
  | .unwrittenTemporary operation =>
    operation.name ++ " reads the temporary before it is written"
  | .missingArgument index => "argument " ++ toString index ++ " out of range"
  | .unreadArgument index => "argument " ++ toString index ++ " is never read"
  | .noResult => "non-void outline without a produced value"
  | .untypedArgument => "void argument"
  | .unresolvedOperand => "unresolved operand"
  | .operandCount => "binop without two operands"
  | .nothingToReturn => "no value to return"

/-- The flaw of a slot of `operation`, given the number of arguments and whether a value was
produced before. -/
def slotFlaw? (arguments : Nat) (written : Bool) (operation : Operation) : Slot → Option Flaw
  | .temporary => if written then none else some (.unwrittenTemporary operation)
  | .argument index => if index < arguments then none else some (.missingArgument index)

/-- The first flaw of a slot, operation by operation. -/
def wiringFlaw? (arguments : Nat) : Bool → List (Operation × List Slot) → Option Flaw
  | _, [] => none
  | written, (operation, slots) :: rest =>
    match slots.findSome? (slotFlaw? arguments written operation) with
    | some flaw => some flaw
    | none => wiringFlaw? arguments (written || operation.hasResult) rest

def flaw? (template : Template) : Option Flaw :=
  if template.arity ≠ template.slots.length then
    some (.slotCount template.arity template.slots.length)
  else
    match template.argumentTypes.find? (·.isVoid) with
    | some descriptor => some (.voidArgument descriptor)
    | none =>
      match wiringFlaw? template.argumentTypes.length false template.wiring with
      | some flaw => some flaw
      | none =>
        match (List.range template.argumentTypes.length).find?
            (fun index => !template.slots.contains (.argument index)) with
        | some index => some (.unreadArgument index)
        | none =>
          if !template.returnType.isVoid && !template.operations.any (·.hasResult) then
            some .noResult
          else none

def signature (template : Template) : Except Flaw Prototype :=
  match template.flaw? with
  | some flaw => .error flaw
  | none => .ok ⟨template.returnType, template.argumentTypes⟩

end Outlining.Template
