import Outlining.Template.Basic
import Outlining.Bytecode.Listing

namespace Outlining.Template

open Outlining.Bytecode Outlining.Text

/-- The value that an operand is written as, below `arity` arguments. -/
def Slot.var (arity : Nat) : Slot → Var
  | .temporary => arity
  | .argument index => index

def Operation.remark : Operation → String
  | .arithmetic _ _ => ""
  | .call target _ _ => "; " ++ target.text
  | .allocate cls => "; " ++ cls.text

/-- The line for an operation, below `arity` arguments. -/
def operationLine (arity : Nat) (operation : Operation) (slots : List Slot) : String :=
  "  " ++ column 20 operation.name
    ++ (if operation.hasResult then varText arity ++ " <- " else "")
    ++ varsText (slots.map (·.var arity)) ++ operation.remark

def listing (template : Template) : String :=
  let arity := template.argumentTypes.length
  unlines ([template.returnType.text ++ " outline("
      ++ commas (template.argumentTypes.map (·.text)) ++ ")"]
    ++ template.wiring.map (fun (operation, slots) => operationLine arity operation slots)
    ++ [if template.returnType.isVoid then "  return-void"
        else "  " ++ column 20 "return" ++ varText arity])
    ++ "  [" ++ commas (template.slots.map (·.text)) ++ "]"

end Outlining.Template
