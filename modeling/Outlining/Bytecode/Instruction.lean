import Outlining.Bytecode.Reference

namespace Outlining.Bytecode

/-- A value of a method body, named by its place in the method's table of value types. -/
abbrev Var := Nat

/-- A block, named by its place in the method. -/
abbrev Label := Nat

/-- A method, named by its place in the program. -/
abbrev MethodIndex := Nat

inductive Literal where
  | int (value : Int)
  | string (value : String)
  | cls (descriptor : Descriptor)
  | null
deriving DecidableEq, Inhabited

inductive BinaryOp where
  | add
  | sub
  | mul
  | div
  | rem
  | and
  | or
  | xor
  | shl
  | shr
  | ushr
deriving DecidableEq, Inhabited

namespace BinaryOp

def all : List BinaryOp := [.add, .sub, .mul, .div, .rem, .and, .or, .xor, .shl, .shr, .ushr]

def name : BinaryOp → String
  | .add => "add"
  | .sub => "sub"
  | .mul => "mul"
  | .div => "div"
  | .rem => "rem"
  | .and => "and"
  | .or => "or"
  | .xor => "xor"
  | .shl => "shl"
  | .shr => "shr"
  | .ushr => "ushr"

def ofName? (name : String) : Option BinaryOp := all.find? (·.name == name)

def rank : BinaryOp → Nat
  | .add => 0
  | .sub => 1
  | .mul => 2
  | .div => 3
  | .rem => 4
  | .and => 5
  | .or => 6
  | .xor => 7
  | .shl => 8
  | .shr => 9
  | .ushr => 10

instance : Ord BinaryOp := ⟨compareOn rank⟩

/-- The operators on numbers, as against those on bits. -/
def isArithmetic : BinaryOp → Bool
  | .add | .sub | .mul | .div | .rem => true
  | _ => false

/-- The operators whose operands may be swapped. -/
def isCommutative : BinaryOp → Bool
  | .add | .mul | .and | .or | .xor => true
  | _ => false

theorem ofName?_name (op : BinaryOp) : ofName? op.name = some op := by
  cases op <;> decide

end BinaryOp

/-- How the target of a call is found. -/
inductive CallKind where
  | static
  | direct
  | virtual
  | interface
  | super
deriving DecidableEq, Inhabited

namespace CallKind

def all : List CallKind := [.static, .direct, .virtual, .interface, .super]

def name : CallKind → String
  | .static => "static"
  | .direct => "direct"
  | .virtual => "virtual"
  | .interface => "interface"
  | .super => "super"

def ofName? (name : String) : Option CallKind := all.find? (·.name == name)

def rank : CallKind → Nat
  | .static => 0
  | .direct => 1
  | .virtual => 2
  | .interface => 3
  | .super => 4

instance : Ord CallKind := ⟨compareOn rank⟩

/-- Every call but a static one passes the receiver as its first operand. -/
def hasReceiver : CallKind → Bool
  | .static => false
  | _ => true

theorem ofName?_name (kind : CallKind) : ofName? kind.name = some kind := by
  cases kind <;> decide

end CallKind

/-- The number of operands that a call of the method takes. -/
def Reference.arity (target : Reference) (kind : CallKind) : Nat :=
  kind.hasReceiver.toNat + target.prototype.parameters.length

/-- The declared type of an operand of a call; the receiver is declared by the holder. -/
def Reference.operandType? (target : Reference) (kind : CallKind) (slot : Nat) :
    Option Descriptor :=
  if kind.hasReceiver then (target.holder :: target.prototype.parameters)[slot]?
  else target.prototype.parameters[slot]?

inductive Opcode where
  | argument (index : Nat)
  | literal (value : Literal)
  /-- The result is the operand under a narrower type. -/
  | refine
  | arithmetic (op : BinaryOp) (numeric : Numeric)
  | allocate (cls : Descriptor)
  /-- A relocatable call does the same from any method. -/
  | call (kind : CallKind) (target : Reference) (relocatable : Bool)
  | ret
  | jump
  | branch
  | raise
  /-- Any instruction that has no meaning here but its operands and its result. -/
  | other (name : String)
deriving DecidableEq, Inhabited

structure Instruction where
  opcode : Opcode
  operands : List Var
  result : Option Var
  line : Option Nat
deriving DecidableEq, Inhabited

namespace Instruction

def target? (instruction : Instruction) : Option Reference :=
  match instruction.opcode with
  | .call _ target _ => some target
  | _ => none

def mnemonic (instruction : Instruction) : String :=
  match instruction.opcode with
  | .argument _ => "argument"
  | .literal _ => "const"
  | .refine => "assume"
  | .arithmetic op numeric => op.name ++ "-" ++ numeric.name
  | .allocate _ => "new-instance"
  | .call kind _ _ => "invoke-" ++ kind.name
  | .ret => "return"
  | .jump => "goto"
  | .branch => "if"
  | .raise => "throw"
  | .other name => name

/-- The result of a refinement and the value that it refines. -/
def refinement? (instruction : Instruction) : Option (Var × Var) :=
  match instruction.opcode, instruction.result, instruction.operands with
  | .refine, some result, source :: _ => some (result, source)
  | _, _, _ => none

theorem refinement?_eq_some_iff {instruction : Instruction} {result source : Var} :
    instruction.refinement? = some (result, source) ↔
      instruction.opcode = .refine ∧ instruction.result = some result ∧
        instruction.operands.head? = some source := by
  unfold refinement?
  split
  · rename_i opcode produced operands
    simp [opcode, produced, operands]
  · rename_i other
    refine iff_of_false (by simp) ?_
    rintro ⟨opcode, produced, first⟩
    obtain ⟨others, operands⟩ := List.head?_eq_some_iff.mp first
    exact other result source others opcode produced operands

end Instruction

end Outlining.Bytecode
