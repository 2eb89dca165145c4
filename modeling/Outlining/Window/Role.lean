import Outlining.Bytecode.Instruction

namespace Outlining.Window

/-- What an instruction is to a window. -/
inductive Role where
  | arithmetic
  | allocation
  | call
  | literal
  | refinement
  | unsupported
deriving DecidableEq, Inhabited

namespace Role

/-- Literals and refinements ride along in a window and are no part of its size. -/
def isTransparent : Role → Bool
  | .literal | .refinement => true
  | _ => false

def isOperation : Role → Bool
  | .arithmetic | .allocation | .call => true
  | _ => false

theorem isOperation_or_isTransparent_or_unsupported (role : Role) :
    role.isOperation = true ∨ role.isTransparent = true ∨ role = .unsupported := by
  cases role <;> decide

end Role

end Outlining.Window

namespace Outlining.Bytecode.Instruction

open Outlining.Window

/-- The role of an instruction. An instruction with the wrong number of operands, or with a
result where there is none, has no part in a window. -/
def role (instruction : Instruction) : Role :=
  match instruction.opcode with
  | .literal _ => .literal
  | .refine =>
    if instruction.operands.length = 1 && instruction.result.isSome then .refinement
    else .unsupported
  | .arithmetic op _ =>
    if op.isArithmetic && instruction.operands.length = 2 && instruction.result.isSome then
      .arithmetic
    else .unsupported
  | .allocate _ => if instruction.result.isSome then .allocation else .unsupported
  | .call kind target _ =>
    if instruction.operands.length = target.arity kind
        && (instruction.result.isNone || !target.prototype.returnType.isVoid) then .call
    else .unsupported
  | _ => .unsupported

def isTransparent (instruction : Instruction) : Bool := instruction.role.isTransparent

def isOperation (instruction : Instruction) : Bool := instruction.role.isOperation

end Outlining.Bytecode.Instruction
