import Outlining.Bytecode.Descriptor

/-! The type of a value is coarser than a descriptor: the small integer types are one type, an
interface is an object that implements it, and the null constant has a type of its own. -/
namespace Outlining.Bytecode

inductive ValueType where
  | number (numeric : Numeric)
  /-- An instance of a class; an interface type is `Object` with the interface listed. -/
  | object (cls : Descriptor) (interfaces : List Descriptor)
  | array (element : ValueType)
  /-- The type of the null constant. -/
  | null
deriving DecidableEq, Inhabited

namespace ValueType

/-- A value known only by one interface that it implements. -/
def ofInterface (interface : Descriptor) : ValueType := .object .object [interface]

/-- Reads a descriptor: each leading bracket is an array around the rest. -/
def ofLetters : List Char → Option ValueType
  | ['V'] => none
  | '[' :: element => (ofLetters element).map .array
  | letters =>
    match Numeric.ofDescriptor? ⟨String.ofList letters⟩ with
    | some numeric => some (.number numeric)
    | none => some (.object ⟨String.ofList letters⟩ [])

/-- The type of a value declared with the descriptor. No value has type `V`, nor is there an
array of it. -/
def ofDescriptor? (descriptor : Descriptor) : Option ValueType := ofLetters descriptor.text.toList

def isArray : ValueType → Bool
  | .array _ => true
  | _ => false

def base : ValueType → ValueType
  | .array element => element.base
  | type => type

/-- The descriptor that declares the type; the null constant is declared by none. -/
def descriptor? : ValueType → Option Descriptor
  | .number numeric => some numeric.descriptor
  | .object cls _ => some cls
  | .array element => element.descriptor?.map .arrayOf
  | .null => none

def width : ValueType → Nat
  | .number numeric => numeric.width
  | _ => 1

theorem base_not_array (type : ValueType) : type.base.isArray = false := by
  induction type with
  | array element inductionHypothesis => exact inductionHypothesis
  | _ => rfl

end ValueType

end Outlining.Bytecode
