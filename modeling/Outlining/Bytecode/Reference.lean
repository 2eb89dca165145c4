import Outlining.Bytecode.Descriptor

namespace Outlining.Bytecode

structure Prototype where
  returnType : Descriptor
  parameters : List Descriptor
deriving DecidableEq, Inhabited

namespace Prototype

def text (prototype : Prototype) : String :=
  "(" ++ String.join (prototype.parameters.map (·.text)) ++ ")" ++ prototype.returnType.text

instance : Ord Prototype :=
  ⟨compareLex (compareOn (·.returnType)) (compareOn (·.parameters))⟩

end Prototype

/-- The name of a method: its holder, its own name and its prototype. -/
structure Reference where
  holder : Descriptor
  name : String
  prototype : Prototype
deriving DecidableEq, Inhabited

namespace Reference

def text (reference : Reference) : String :=
  reference.holder.text ++ "->" ++ reference.name ++ reference.prototype.text

/-- An instance is initialised by methods named `<init>`. -/
def isConstructor (reference : Reference) : Bool := reference.name == "<init>"

instance : Ord Reference :=
  ⟨compareLex (compareOn (·.holder)) (compareLex (compareOn (·.name)) (compareOn (·.prototype)))⟩

end Reference

end Outlining.Bytecode
