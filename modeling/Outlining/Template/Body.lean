import Outlining.Bytecode.Draft
import Outlining.Template.Signature

namespace Outlining.Template

open Outlining.Bytecode

def readArguments (draft : Draft) : List Descriptor → Except Flaw (Draft × List Var)
  | [] => .ok (draft, [])
  | descriptor :: rest =>
    match ValueType.ofDescriptor? descriptor with
    | none => .error .untypedArgument
    | some type =>
      let (next, value) := draft.argument type
      match readArguments next rest with
      | .error flaw => .error flaw
      | .ok (final, values) => .ok (final, value.toList ++ values)

/-- The value in a slot. -/
def Slot.resolve? (arguments : List Var) (temporary : Option Var) : Slot → Option Var
  | .temporary => temporary
  | .argument index => arguments[index]?

def Operation.emit (operation : Operation) (draft : Draft) (values : List Var) :
    Except Flaw (Draft × Option Var) :=
  match operation with
  | .arithmetic op numeric =>
    if values.length = 2 then
      .ok (draft.emit (.arithmetic op numeric) values (some (.number numeric)))
    else .error .operandCount
  | .allocate cls => .ok (draft.emit (.allocate cls) values (some (.object cls [])))
  | .call target kind keepsResult => .ok (draft.call kind target values true keepsResult)

/-- Does the operations one after the other, and gives the value produced last. -/
def replay (arguments : List Var) (draft : Draft) (temporary : Option Var) :
    List (Operation × List Slot) → Except Flaw (Draft × Option Var)
  | [] => .ok (draft, temporary)
  | (operation, slots) :: rest =>
    match slots.mapM (·.resolve? arguments temporary) with
    | none => .error .unresolvedOperand
    | some values =>
      match operation.emit draft values with
      | .error flaw => .error flaw
      | .ok (next, result) => replay arguments next (result.or temporary) rest

/-- The outline of a template as a method. -/
def body (template : Template) (reference : Reference) (index : MethodIndex) :
    Except Flaw Method := do
  let start := { Draft.start reference true with line := some 0 }
  let (ready, arguments) ← readArguments start template.argumentTypes
  let (done, temporary) ← replay arguments ready none template.wiring
  if template.returnType.isVoid then
    return ((done.emit .ret [] none).1).finish index
  match temporary with
  | none => throw .nothingToReturn
  | some value => return ((done.emit .ret [value] none).1).finish index

end Outlining.Template
