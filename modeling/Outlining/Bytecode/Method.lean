import Outlining.Bytecode.Instruction
import Outlining.Bytecode.ValueType

/-! A method body is a list of blocks over a table of value types. Blocks and values are named by
their places, and both lists only ever grow at their ends, so names stay good. -/
namespace Outlining.Bytecode

/-- Where control goes when an instruction of the block raises an instance of `guard`. -/
structure Handler where
  guard : Descriptor
  target : Label
deriving DecidableEq, Inhabited

/-- Instructions that run one after the other, and where control goes from there. -/
structure Block where
  label : Label
  instructions : List Instruction
  successors : List Label
  handlers : List Handler
deriving DecidableEq, Inhabited

namespace Block

def empty (label : Label) : Block := ⟨label, [], [], []⟩

def isGuarded (block : Block) : Bool := !block.handlers.isEmpty

def targets (block : Block) : List Label := block.successors ++ block.handlers.map (·.target)

end Block

structure Method where
  index : MethodIndex
  reference : Reference
  /-- The type of every value. -/
  types : List ValueType
  blocks : List Block
  /-- The method was made by outlining and is never outlined itself. -/
  synthetic : Bool
deriving DecidableEq, Inhabited

namespace Method

/-- The type of a value; a value outside the table counts as null. -/
def typeOf (method : Method) (value : Var) : ValueType := method.types.getD value .null

def instructions (method : Method) : List Instruction := method.blocks.flatMap (·.instructions)

def size (method : Method) : Nat := method.instructions.length

end Method

/-- All methods, each named by its place. -/
structure Program where
  methods : List Method
deriving DecidableEq, Inhabited

namespace Program

def append (program : Program) (method : Method) : Program :=
  ⟨program.methods ++ [{ method with index := program.methods.length }]⟩

end Program

end Outlining.Bytecode
