/-! A descriptor is the text that names a type in a method reference: a single letter for a
primitive type or `V`, `L…;` for a class, and `[` before the descriptor of the elements for an
array. Any text is a descriptor; one that follows none of these forms is read as a class. -/
namespace Outlining.Bytecode

/-- A type descriptor such as `I`, `J`, `Ljava/lang/String;` or `[I`. -/
structure Descriptor where
  text : String
deriving DecidableEq, Inhabited

namespace Descriptor

def void : Descriptor := ⟨"V"⟩
def boolean : Descriptor := ⟨"Z"⟩
def int : Descriptor := ⟨"I"⟩
def long : Descriptor := ⟨"J"⟩
def float : Descriptor := ⟨"F"⟩
def double : Descriptor := ⟨"D"⟩
def object : Descriptor := ⟨"Ljava/lang/Object;"⟩
def string : Descriptor := ⟨"Ljava/lang/String;"⟩

def ofClassName (binaryName : String) : Descriptor := ⟨"L" ++ binaryName ++ ";"⟩

def arrayOf (element : Descriptor) : Descriptor := ⟨"[" ++ element.text⟩

def isVoid (descriptor : Descriptor) : Bool := descriptor.text == "V"

/-- Every one-letter descriptor but `V` is primitive. -/
def isPrimitive (descriptor : Descriptor) : Bool :=
  ["Z", "B", "S", "C", "I", "J", "F", "D"].contains descriptor.text

/-- A long or a double fills a pair of registers. -/
def isWide (descriptor : Descriptor) : Bool := ["J", "D"].contains descriptor.text

def isArray (descriptor : Descriptor) : Bool := descriptor.text.toList.head? == some '['

def isClass (descriptor : Descriptor) : Bool := descriptor.text.toList.head? == some 'L'

def element? (descriptor : Descriptor) : Option Descriptor :=
  match descriptor.text.toList with
  | '[' :: element => some ⟨String.ofList element⟩
  | _ => none

def width (descriptor : Descriptor) : Nat := if descriptor.isWide then 2 else 1

/-- Descriptors are ordered by the code points of their text. -/
instance : Ord Descriptor := ⟨fun left right => compare left.text right.text⟩

theorem element?_arrayOf (element : Descriptor) : element.arrayOf.element? = some element := by
  simp [element?, arrayOf]

theorem isArray_iff (descriptor : Descriptor) :
    descriptor.isArray = true ↔ ∃ element, descriptor.element? = some element := by
  unfold isArray element?
  cases shape : descriptor.text.toList with
  | nil => simp
  | cons letter rest =>
    by_cases bracket : letter = '['
    · subst bracket
      simp
    · simp [bracket]

end Descriptor

/-- The numeric types that arithmetic works on. -/
inductive Numeric where
  | int
  | long
  | float
  | double
deriving DecidableEq, Inhabited

namespace Numeric

def all : List Numeric := [.int, .long, .float, .double]

def name : Numeric → String
  | .int => "int"
  | .long => "long"
  | .float => "float"
  | .double => "double"

def ofName? (name : String) : Option Numeric := all.find? (·.name == name)

def rank : Numeric → Nat
  | .int => 0
  | .long => 1
  | .float => 2
  | .double => 3

instance : Ord Numeric := ⟨compareOn rank⟩

def descriptor : Numeric → Descriptor
  | .int => .int
  | .long => .long
  | .float => .float
  | .double => .double

/-- The numeric type in which values of a primitive type are computed: `boolean`, `byte`, `short`
and `char` are all computed as `int`. -/
def ofDescriptor? (descriptor : Descriptor) : Option Numeric :=
  match descriptor.text with
  | "Z" | "B" | "S" | "C" | "I" => some .int
  | "J" => some .long
  | "F" => some .float
  | "D" => some .double
  | _ => none

def width : Numeric → Nat
  | .long | .double => 2
  | .int | .float => 1

theorem ofName?_name (numeric : Numeric) : ofName? numeric.name = some numeric := by
  cases numeric <;> decide

theorem ofDescriptor?_descriptor (numeric : Numeric) :
    ofDescriptor? numeric.descriptor = some numeric := by
  cases numeric <;> rfl

theorem width_descriptor (numeric : Numeric) : numeric.descriptor.width = numeric.width := by
  cases numeric <;> rfl

end Numeric

end Outlining.Bytecode
