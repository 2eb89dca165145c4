import Outlining.Template.Operation

/-! A template is what windows that may share one outline have in common: their operations, the
types of the values that flow in, the type of the value that flows out, and for each operand whether
it is one of the arguments or the value produced last. It names no value of any method body. -/
namespace Outlining.Template

open Outlining.Bytecode

inductive Slot where
  /-- The value produced last. -/
  | temporary
  | argument (index : Nat)
deriving DecidableEq, Inhabited

namespace Slot

/-- The temporary stands before all arguments in the order. -/
def rank : Slot → Nat
  | .temporary => 0
  | .argument index => index + 1

instance : Ord Slot := ⟨compareOn rank⟩

def text : Slot → String
  | .temporary => "T"
  | .argument index => toString index

end Slot

end Outlining.Template

namespace Outlining

open Outlining.Bytecode Outlining.Template

/-- The shape of a window; the slots of all operations stand in one list. -/
structure Template where
  operations : List Operation
  argumentTypes : List Descriptor
  slots : List Slot
  returnType : Descriptor
deriving DecidableEq, Inhabited

namespace Template

def arity (template : Template) : Nat :=
  template.operations.foldr (fun operation rest => operation.arity + rest) 0

/-- Whether every operand has exactly one slot. -/
def coversOperands (template : Template) : Bool := template.slots.length == template.arity

/-- Gives every operation as many slots as it has operands, for as long as there are slots. -/
def deal : List Operation → List Slot → List (Operation × List Slot)
  | [], _ => []
  | operation :: rest, slots =>
    (operation, slots.take operation.arity) :: deal rest (slots.drop operation.arity)

def wiring (template : Template) : List (Operation × List Slot) :=
  deal template.operations template.slots

/-- The part of a template by which it may be looked up quickly: templates with different heads
differ. -/
def head (template : Template) : Nat × List Operation :=
  (template.operations.length, template.operations.take 5)

theorem map_fst_deal (operations : List Operation) (slots : List Slot) :
    (deal operations slots).map Prod.fst = operations := by
  induction operations generalizing slots with
  | nil => rfl
  | cons operation rest inductionHypothesis => simp [deal, inductionHypothesis]

end Template

end Outlining
