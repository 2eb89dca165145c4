import Outlining.Proofs.Template.Order

/-! Templates and all that their order is made of are totally ordered, and compare as equal only if
they are equal. Equal templates have equal heads, so that a template is found by its head; heads
alone do not tell templates apart. -/
namespace Outlining

open Std

/-- The laws of a total order in which nothing but equal things compare as equal. -/
structure TotalOrder (α : Type) [Ord α] [BEq α] : Prop where
  swap : ∀ left right : α, compare left right = (compare right left).swap
  trans : ∀ left middle right : α, (compare left middle).isLE = true →
    (compare middle right).isLE = true → (compare left right).isLE = true
  eq_iff : ∀ left right : α, compare left right = .eq ↔ (left == right) = true

theorem totalOrder_of_lawful (α : Type) [Ord α] [TransOrd α] [LawfulEqOrd α] [BEq α]
    [LawfulBEq α] : TotalOrder α where
  swap _ _ := OrientedOrd.eq_swap
  trans _ _ _ := TransOrd.isLE_trans
  eq_iff _ _ := LawfulEqOrd.compare_eq_iff_eq.trans beq_iff_eq.symm

namespace Template

open Outlining.Bytecode

variable {left right : Template}

/-- The head of a template is the number of its operations and the first five of them. -/
theorem head_eq_iff : left.head = right.head ↔
    left.operations.length = right.operations.length ∧
      ∀ place < 5, left.operations[place]? = right.operations[place]? := by
  rw [head, head, Prod.mk.injEq]
  apply and_congr_right
  intro _
  constructor
  · intro same place inside
    have there := congrArg (·[place]?) same
    simpa [List.getElem?_take, inside] using there
  · intro same
    apply List.ext_getElem?
    intro place
    rw [List.getElem?_take, List.getElem?_take]
    split
    · exact same place ‹_›
    · rfl

/-- What it is for two templates to be equal, and to have the same head. -/
structure Identified (left right : Template) : Prop where
  equal : (left == right) = true ↔ left.operations = right.operations ∧
    left.argumentTypes = right.argumentTypes ∧ left.slots = right.slots ∧
    left.returnType = right.returnType
  /-- The head looks at the operations only, and at no more than five of them. -/
  sameHead : left.head = right.head ↔ left.operations.length = right.operations.length ∧
    ∀ place < 5, left.operations[place]? = right.operations[place]?
  found : (left == right) = true → left.head = right.head

theorem identified (left right : Template) : Identified left right where
  equal := by
    obtain ⟨operations, argumentTypes, slots, returnType⟩ := left
    obtain ⟨others, otherTypes, otherSlots, otherReturn⟩ := right
    rw [beq_iff_eq, mk.injEq]
  sameHead := head_eq_iff
  found same := by
    have operations := congrArg Template.operations (beq_iff_eq.mp same)
    exact head_eq_iff.mpr ⟨by rw [operations], fun _ _ => by rw [operations]⟩

/-- Templates, operations, references, prototypes and descriptors are totally ordered, and equal
templates agree in all their parts and in their heads. -/
theorem totalOrder_of_parts : TotalOrder Template ∧ TotalOrder Operation ∧
    TotalOrder Reference ∧ TotalOrder Prototype ∧ TotalOrder Descriptor ∧
    ∀ left right : Template, Identified left right :=
  ⟨totalOrder_of_lawful Template, totalOrder_of_lawful Operation, totalOrder_of_lawful Reference,
    totalOrder_of_lawful Prototype, totalOrder_of_lawful Descriptor, identified⟩

/-- The template of six operations on one argument, all of them additions but the last. -/
def endingWith (op : BinaryOp) : Template where
  operations := List.replicate 5 (.arithmetic .add .int) ++ [.arithmetic op .int]
  argumentTypes := [.int]
  slots := List.replicate 12 (.argument 0)
  returnType := .int

/-- Templates with the same head are told apart by their order. -/
theorem compare_endingWith : (endingWith .add).head = (endingWith .mul).head ∧
    compare (endingWith .add) (endingWith .mul) = .lt ∧
    compare (endingWith .mul) (endingWith .add) = .gt := by
  have before : compare (endingWith .add) (endingWith .mul) = .lt := by decide +kernel
  refine ⟨by decide, before, ?_⟩
  rw [totalOrder_of_parts.1.swap, before]
  rfl

end Template

end Outlining
