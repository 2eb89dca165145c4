import Outlining.Bytecode.Method

/-! A draft is a method body under construction. Instructions go to the end of the current block;
each result is a fresh value. -/
namespace Outlining.Bytecode

/-- A method under construction. -/
structure Draft where
  method : Method
  current : Label
  /-- The source line of the instructions to come. -/
  line : Option Nat
  /-- The number of arguments read so far. -/
  arguments : Nat
deriving DecidableEq, Inhabited

namespace Draft

def start (reference : Reference) (synthetic : Bool) : Draft :=
  ⟨⟨0, reference, [], [.empty 0], synthetic⟩, 0, none, 0⟩

def finish (draft : Draft) (index : MethodIndex) : Method := { draft.method with index := index }

/-- Whether the current block exists. -/
def isOpen (draft : Draft) : Bool := draft.current < draft.method.blocks.length

def onCurrent (draft : Draft) (change : Block → Block) : Draft :=
  { draft with
    method := { draft.method with blocks := draft.method.blocks.modify draft.current change } }

/-- A fresh value of the given type. -/
def fresh (draft : Draft) (type : ValueType) : Draft × Var :=
  ({ draft with method := { draft.method with types := draft.method.types ++ [type] } },
    draft.method.types.length)

def emit (draft : Draft) (opcode : Opcode) (operands : List Var) (type : Option ValueType) :
    Draft × Option Var :=
  let (draft, result) :=
    match type with
    | some type => (draft.fresh type).map id some
    | none => (draft, none)
  (draft.onCurrent fun block =>
    { block with instructions := block.instructions ++ [⟨opcode, operands, result, draft.line⟩] },
    result)

def argument (draft : Draft) (type : ValueType) : Draft × Option Var :=
  { draft with arguments := draft.arguments + 1 }.emit (.argument draft.arguments) [] (some type)

/-- A call; its result is kept if asked for and if the method returns a value. -/
def call (draft : Draft) (kind : CallKind) (target : Reference) (operands : List Var)
    (relocatable keepsResult : Bool) : Draft × Option Var :=
  draft.emit (.call kind target relocatable) operands
    (if keepsResult then ValueType.ofDescriptor? target.prototype.returnType else none)

end Draft

inductive DraftStep where
  | setLine (line : Option Nat)
  | argument (type : ValueType)
  | literal (value : Literal) (type : ValueType)
  | refine (source : Var)
  | arithmetic (op : BinaryOp) (numeric : Numeric) (left right : Var)
  | allocate (cls : Descriptor)
  | call (kind : CallKind) (target : Reference) (operands : List Var)
      (relocatable keepsResult : Bool)
  | other (name : String) (operands : List Var) (type : Option ValueType)
  | ret (value : Option Var)
  | jump (target : Label)
  | openBlock
  | switchTo (label : Label)
  | guard (guard : Descriptor) (target : Label)
deriving DecidableEq

namespace Draft

/-- The outcome of a step that writes to the current block: without one there is no answer. -/
def answer (before : Draft) (outcome : Draft × Option Var) : Draft × Except Unit (Option Nat) :=
  (outcome.1, if before.isOpen then .ok outcome.2 else .error ())

/-- The draft after a step, and the value or block that the step answers with. Only a step that
looks at a block or value that does not exist has no answer (`.error`). -/
def step (draft : Draft) : DraftStep → Draft × Except Unit (Option Nat)
  | .setLine line => ({ draft with line := line }, .ok none)
  | .argument type => draft.answer (draft.argument type)
  | .literal value type => draft.answer (draft.emit (.literal value) [] (some type))
  | .refine source =>
    match draft.method.types[source]? with
    | some type => draft.answer (draft.emit .refine [source] (some type))
    | none => (draft, .error ())
  | .arithmetic op numeric left right =>
    draft.answer (draft.emit (.arithmetic op numeric) [left, right] (some (.number numeric)))
  | .allocate cls => draft.answer (draft.emit (.allocate cls) [] (some (.object cls [])))
  | .call kind target operands relocatable keepsResult =>
    draft.answer (draft.call kind target operands relocatable keepsResult)
  | .other name operands type => draft.answer (draft.emit (.other name) operands type)
  | .ret value => draft.answer (draft.emit .ret value.toList none)
  | .jump target =>
    let (jumped, result) := draft.emit .jump [] none
    draft.answer (jumped.onCurrent fun block =>
      { block with successors := block.successors ++ [target] }, result)
  | .openBlock =>
    let label := draft.method.blocks.length
    ({ draft with
        method := { draft.method with blocks := draft.method.blocks ++ [.empty label] } },
      .ok (some label))
  | .switchTo label => ({ draft with current := label }, .ok (some label))
  | .guard guard target =>
    draft.answer (draft.onCurrent fun block =>
      { block with handlers := block.handlers ++ [⟨guard, target⟩] }, none)

end Draft

end Outlining.Bytecode
