import Outlining.Bytecode.Usage
import Outlining.Template.Basic
import Outlining.Window.Limits
import Outlining.Window.Role

/-! A window takes one instruction after the other for as long as the outline can still be wired up
with arguments and a single temporary. The temporary is the value produced last; it may be replaced
only once nothing outside the window needs it any more. A fresh instance may leave the window only
together with the call of its constructor. -/
namespace Outlining

open Outlining.Bytecode Outlining.Template

namespace Window

/-- A value that flows into a window, and the type of the parameter that takes it. -/
structure Argument where
  value : Var
  type : Descriptor
deriving DecidableEq, Inhabited

/-- The value produced last in a window, for as long as it is still to be read. -/
structure Temporary where
  value : Var
  type : Descriptor
  /-- Refinements may make this as large as the square of the number of operands of the body. -/
  readsLeft : Nat
deriving DecidableEq, Inhabited

structure Allocation where
  /-- The place of the instruction, counted from the start of the window. -/
  offset : Nat
  value : Var
deriving DecidableEq, Inhabited

structure Scope where
  method : Method
  usage : Usage
  limits : Limits

def Scope.ofMethod (method : Method) (limits : Limits) : Scope :=
  ⟨method, .ofMethod method, limits⟩

end Window

open Outlining.Window

/-- What is known of the instructions that a window has taken. -/
structure Window where
  /-- The number of instructions taken. -/
  taken : Nat
  /-- The number of operations among them. -/
  operations : Nat
  arguments : List Argument
  slots : List Slot
  temporary : Option Temporary
  pending : Option Allocation
deriving DecidableEq, Inhabited

namespace Window

def empty : Window := ⟨0, 0, [], [], none, none⟩

/-- The type of the parameter for a value read as operand `slot`. Arithmetic decides by its
numeric type. Otherwise an object known by one interface is passed as that interface, and a null
constant or an integer as the operand is declared, since its own type says too little. -/
def parameterType (type : ValueType) (instruction : Instruction) (slot : Nat) : Descriptor :=
  match instruction.opcode with
  | .arithmetic _ numeric => numeric.descriptor
  | opcode =>
    let declared : Option Descriptor := match opcode with
      | .call kind target _ => target.operandType? kind slot
      | _ => none
    match type with
    | .object cls [interface] => if cls = .object then interface else cls
    | .object cls _ => cls
    | .array _ => (type.descriptor?.or declared).getD .object
    | .null => declared.getD .object
    | .number .int => declared.getD .int
    | .number numeric => numeric.descriptor

namespace Scope

/-- Arrays of interfaces, or of null, are passed only if the limits say so. -/
def supports (scope : Scope) (type : ValueType) : Bool :=
  if !type.isArray || scope.limits.interfaceArrays then true
  else
    match type.base with
    | .number _ => true
    | .object _ interfaces => interfaces.isEmpty
    | _ => false

def registers (scope : Scope) (arguments : List Argument) : Nat :=
  arguments.foldr (fun argument rest => (scope.method.typeOf argument.value).width + rest) 0

/-- Adds the operands of an instruction to the arguments; `none` if a known argument would need a
second type or a new one may not be passed. -/
def fit (scope : Scope) (temporary : Option Var) (instruction : Instruction)
    (arguments : List Argument) : List (Var × Nat) → Option (List Argument)
  | [] => some arguments
  | (operand, slot) :: rest =>
    let value := scope.usage.root operand
    if some value = temporary then scope.fit temporary instruction arguments rest
    else
      let type := scope.method.typeOf value
      let parameter := parameterType type instruction slot
      match arguments.find? (·.value == value) with
      | some known =>
        if known.type = parameter then scope.fit temporary instruction arguments rest else none
      | none =>
        if scope.supports type then
          scope.fit temporary instruction (arguments ++ [⟨value, parameter⟩]) rest
        else none

/-- Adds the operands of an instruction to the arguments, and gives the slot of each. -/
def bind (scope : Scope) (temporary : Option Var) (instruction : Instruction)
    (arguments : List Argument) : List (Var × Nat) → List Argument × List Slot
  | [] => (arguments, [])
  | (operand, slot) :: rest =>
    let value := scope.usage.root operand
    if some value = temporary then
      let (all, slots) := scope.bind temporary instruction arguments rest
      (all, .temporary :: slots)
    else
      match arguments.findIdx? (·.value == value) with
      | some index =>
        let (all, slots) := scope.bind temporary instruction arguments rest
        (all, .argument index :: slots)
      | none =>
        let parameter := parameterType (scope.method.typeOf value) instruction slot
        let (all, slots) :=
          scope.bind temporary instruction (arguments ++ [⟨value, parameter⟩]) rest
        (all, .argument arguments.length :: slots)

/-- A produced value is the temporary if it is read at all. -/
def produce (scope : Scope) (value : Var) (type : Descriptor) : Option Temporary :=
  if scope.usage.isRead value then some ⟨value, type, scope.usage.reads value⟩ else none

end Scope

/-- The temporary with `reads` fewer reads left, if any are left then. -/
def Temporary.consume (temporary : Temporary) (reads : Nat) : Option Temporary :=
  if temporary.readsLeft ≤ reads then none
  else some { temporary with readsLeft := temporary.readsLeft - reads }

def temporaryValue (window : Window) : Option Var := window.temporary.map (·.value)

/-- Whether an operand stands for the temporary. -/
def readsTemporary (window : Window) (scope : Scope) (operand : Var) : Bool :=
  some (scope.usage.root operand) == window.temporaryValue

/-- The operands of an instruction; the temporary stands first where the order does not matter. -/
def operandsInOrder (window : Window) (scope : Scope) (instruction : Instruction) : List Var :=
  match instruction.opcode, instruction.operands with
  | .arithmetic op _, [left, right] =>
    if op.isCommutative && window.readsTemporary scope right
        && !window.readsTemporary scope left then [right, left]
    else [left, right]
  | _, operands => operands

def temporaryReads (window : Window) (scope : Scope) (instruction : Instruction) : Nat :=
  instruction.operands.countP (window.readsTemporary scope)

/-- Whether an instruction would replace a temporary that is still to be read. -/
def overwrites (window : Window) (scope : Scope) (instruction : Instruction) : Bool :=
  instruction.result.isSome
    && (window.temporary.bind (·.consume (window.temporaryReads scope instruction))).isSome

/-- Whether an instruction calls the constructor of the instance that waits for it, if one does. -/
def constructsPending (window : Window) (scope : Scope) (instruction : Instruction) : Bool :=
  match window.pending with
  | none => true
  | some allocation =>
    instruction.target?.any (·.isConstructor)
      && instruction.operands.head?.map scope.usage.root == some allocation.value

/-- Whether the operands of an instruction can be passed together with the arguments so far. -/
def fits (window : Window) (scope : Scope) (instruction : Instruction) : Bool :=
  match scope.fit window.temporaryValue instruction window.arguments
      (window.operandsInOrder scope instruction).zipIdx with
  | some arguments => scope.registers arguments ≤ scope.limits.maxRegisters
  | none => false

/-- Whether a call does the same from an outline. A constructor must follow its allocation. -/
def callMoves (window : Window) (kind : CallKind) (target : Reference) (relocatable : Bool) :
    Bool :=
  relocatable && (!target.isConstructor || (kind.hasReceiver && window.pending.isSome))

def admits (window : Window) (scope : Scope) (instruction : Instruction) : Bool :=
  !window.overwrites scope instruction && window.constructsPending scope instruction
    && match instruction.role, instruction.opcode with
      | .allocation, _ => true
      | .arithmetic, _ => window.fits scope instruction
      | .call, .call kind target relocatable =>
        window.callMoves kind target relocatable && window.fits scope instruction
      | _, _ => false

/-- Takes a refinement: the reads of its result are reads of what it refines. -/
def takeRefinement (window : Window) (scope : Scope) (instruction : Instruction) : Window :=
  match instruction.refinement? with
  | some (result, source) =>
    if window.readsTemporary scope source then
      { window with
        temporary := window.temporary.bind fun temporary =>
          let readsLeft := temporary.readsLeft - 1 + scope.usage.reads result
          if readsLeft = 0 then none else some { temporary with readsLeft := readsLeft } }
    else window
  | none => window

def takeResult (window : Window) (scope : Scope) (instruction : Instruction) : Window :=
  match instruction.opcode, instruction.result with
  | .allocate cls, some result =>
    { window with
      temporary := scope.produce result cls
      pending := if scope.usage.isRead result then some ⟨window.taken, result⟩
        else window.pending }
  | .call _ target _, result =>
    { window with
      temporary := match result with
        | some result => scope.produce result target.prototype.returnType
        | none => window.temporary
      pending := if target.isConstructor then none else window.pending }
  | .arithmetic _ numeric, some result =>
    { window with temporary := scope.produce result numeric.descriptor }
  | _, _ => window

/-- Takes an operation. -/
def takeOperation (window : Window) (scope : Scope) (instruction : Instruction) : Window :=
  let (arguments, slots) := scope.bind window.temporaryValue instruction window.arguments
    (window.operandsInOrder scope instruction).zipIdx
  let consumed := window.temporary.bind (·.consume (window.temporaryReads scope instruction))
  let fed := { window with
    operations := window.operations + 1
    arguments := arguments
    slots := window.slots ++ slots
    temporary := consumed }
  fed.takeResult scope instruction

/-- Takes an instruction. -/
def take (window : Window) (scope : Scope) (instruction : Instruction) : Window :=
  let grown := match instruction.role with
    | .literal => window
    | .refinement => window.takeRefinement scope instruction
    | _ => window.takeOperation scope instruction
  { grown with taken := window.taken + 1 }

/-- A window with the place of the last instruction that it took. -/
def ended (window : Window) : Option (Window × Nat) :=
  match window.taken with
  | 0 => none
  | last + 1 => some (window, last)

/-- Grows a window over the instructions ahead, and gives it with the place of its last
instruction; `none` if it takes nothing. A window starts with an operation. -/
def grow (scope : Scope) (window : Window) : List Instruction → Option (Window × Nat)
  | [] => window.ended
  | instruction :: rest =>
    if instruction.isTransparent && window.taken == 0 then none
    else if instruction.isTransparent || window.admits scope instruction then
      let next := window.take scope instruction
      if scope.limits.maxSize ≤ next.operations then some (next, window.taken)
      else grow scope next rest
    else window.ended

end Window

end Outlining
