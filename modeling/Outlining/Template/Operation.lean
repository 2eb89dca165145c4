import Outlining.Bytecode.Instruction

namespace Outlining.Template

open Outlining.Bytecode

inductive Operation where
  | arithmetic (op : BinaryOp) (numeric : Numeric)
  | call (target : Reference) (kind : CallKind) (keepsResult : Bool)
  | allocate (cls : Descriptor)
deriving DecidableEq, Inhabited

namespace Operation

/-- The operation of an instruction that computes, calls or allocates. -/
def ofInstruction? (instruction : Instruction) : Option Operation :=
  match instruction.opcode with
  | .arithmetic op numeric => if op.isArithmetic then some (.arithmetic op numeric) else none
  | .allocate cls => some (.allocate cls)
  | .call kind target _ => some (.call target kind instruction.result.isSome)
  | _ => none

def arity : Operation → Nat
  | .arithmetic _ _ => 2
  | .allocate _ => 0
  | .call target kind _ => target.arity kind

def hasResult : Operation → Bool
  | .arithmetic _ _ | .allocate _ => true
  | .call _ _ keepsResult => keepsResult

def operandType? (operation : Operation) (slot : Nat) : Option Descriptor :=
  match operation with
  | .arithmetic _ numeric => if slot < 2 then some numeric.descriptor else none
  | .call target kind _ => target.operandType? kind slot
  | .allocate _ => none

def resultType? : Operation → Option Descriptor
  | .arithmetic _ numeric => some numeric.descriptor
  | .allocate cls => some cls
  | .call target _ keepsResult => if keepsResult then some target.prototype.returnType else none

def name : Operation → String
  | .arithmetic op numeric => op.name ++ "-" ++ numeric.name
  | .call _ kind _ => "invoke-" ++ kind.name
  | .allocate _ => "new-instance"

def rank : Operation → Nat
  | .arithmetic _ _ => 0
  | .call _ _ _ => 1
  | .allocate _ => 2

/-- Kinds first; within a kind, field by field. -/
protected def compare : Operation → Operation → Ordering
  | .arithmetic op numeric, .arithmetic op' numeric' =>
    (compare op op').then (compare numeric numeric')
  | .call target kind keepsResult, .call target' kind' keepsResult' =>
    (compare target target').then ((compare kind kind').then (compare keepsResult keepsResult'))
  | .allocate cls, .allocate cls' => compare cls cls'
  | left, right => compare left.rank right.rank

instance : Ord Operation := ⟨Operation.compare⟩

theorem isSome_resultType? (operation : Operation) :
    operation.resultType?.isSome = operation.hasResult := by
  cases operation with
  | call target kind keepsResult => cases keepsResult <;> rfl
  | _ => rfl

end Operation

end Outlining.Template
