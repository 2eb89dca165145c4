import Outlining.Template.Basic

/-! Templates are ordered by what their outlines look like from outside, then by their operations,
and last by their slots. Of two lists of operations or slots the shorter stands first. -/
namespace Outlining.Template

open Outlining.Bytecode

/-- Lists by their length, then item by item. -/
def compareSized {α : Type} [Ord α] : List α → List α → Ordering :=
  compareLex (compareOn List.length) (compareOn id)

protected def compare : Template → Template → Ordering :=
  compareLex (compareOn (·.returnType)) <|
  compareLex (compareOn (·.argumentTypes)) <|
  compareLex (fun left right => compareSized left.operations right.operations)
    (fun left right => compareSized left.slots right.slots)

instance : Ord Template := ⟨Template.compare⟩

/-- Whether `left` may stand before `right` in a sorted list. -/
def le (left right : Template) : Bool := (compare left right).isLE

end Outlining.Template
