import Mathlib.Data.List.Sort
import Outlining.Holder

namespace Outlining

open Std

namespace Bytecode

instance : TransOrd Descriptor := inferInstanceAs (TransCmp (compareOn Descriptor.text))

instance : LawfulEqOrd Descriptor where
  eq_of_compare {left right} same := by
    cases left
    cases right
    exact congrArg _ (LawfulEqOrd.eq_of_compare same)

instance : TransOrd Numeric := inferInstanceAs (TransCmp (compareOn Numeric.rank))

instance : LawfulEqOrd Numeric where
  eq_of_compare {left right} same := by
    have ranks : left.rank = right.rank := LawfulEqOrd.eq_of_compare same
    cases left <;> cases right <;> first | rfl | cases ranks

instance : TransOrd BinaryOp := inferInstanceAs (TransCmp (compareOn BinaryOp.rank))

instance : LawfulEqOrd BinaryOp where
  eq_of_compare {left right} same := by
    have ranks : left.rank = right.rank := LawfulEqOrd.eq_of_compare same
    cases left <;> cases right <;> first | rfl | cases ranks

instance : TransOrd CallKind := inferInstanceAs (TransCmp (compareOn CallKind.rank))

instance : LawfulEqOrd CallKind where
  eq_of_compare {left right} same := by
    have ranks : left.rank = right.rank := LawfulEqOrd.eq_of_compare same
    cases left <;> cases right <;> first | rfl | cases ranks

instance : TransOrd Prototype := inferInstanceAs
  (TransCmp (compareLex (compareOn Prototype.returnType) (compareOn Prototype.parameters)))

theorem compareLex_eq_iff {α : Type} {first second : α → α → Ordering} {left right : α} :
    compareLex first second left right = .eq ↔ first left right = .eq ∧ second left right = .eq :=
  Ordering.then_eq_eq

theorem eq_of_compareOn {α β : Type} [Ord β] [LawfulEqOrd β] {key : α → β} {left right : α}
    (same : compareOn key left right = .eq) : key left = key right :=
  LawfulEqOrd.eq_of_compare same

instance : LawfulEqOrd Prototype where
  eq_of_compare {left right} same := by
    obtain ⟨returns, parameters⟩ := compareLex_eq_iff.mp same
    cases left
    cases right
    exact congrArg₂ _ (eq_of_compareOn returns) (eq_of_compareOn parameters)

instance : TransOrd Reference := inferInstanceAs (TransCmp (compareLex (compareOn Reference.holder)
  (compareLex (compareOn Reference.name) (compareOn Reference.prototype))))

instance : LawfulEqOrd Reference where
  eq_of_compare {left right} same := by
    obtain ⟨holder, rest⟩ := compareLex_eq_iff.mp same
    obtain ⟨name, prototype⟩ := compareLex_eq_iff.mp rest
    cases left
    cases right
    obtain rfl := eq_of_compareOn holder
    obtain rfl := eq_of_compareOn name
    obtain rfl := eq_of_compareOn prototype
    rfl

end Bytecode

namespace Template

open Outlining.Bytecode

instance : TransOrd Slot := inferInstanceAs (TransCmp (compareOn Slot.rank))

instance : LawfulEqOrd Slot where
  eq_of_compare {left right} same := by
    have ranks : left.rank = right.rank := LawfulEqOrd.eq_of_compare same
    cases left <;> cases right <;> simp [Slot.rank] at ranks
    · rfl
    · rw [ranks]

namespace Operation

/-- The operator and the numeric type of arithmetic. -/
def op? : Operation → Option BinaryOp
  | .arithmetic op _ => some op
  | _ => none

def numeric? : Operation → Option Numeric
  | .arithmetic _ numeric => some numeric
  | _ => none

def target? : Operation → Option Reference
  | .call target _ _ => some target
  | _ => none

def kind? : Operation → Option CallKind
  | .call _ kind _ => some kind
  | _ => none

def keepsResult? : Operation → Option Bool
  | .call _ _ keepsResult => some keepsResult
  | _ => none

def cls? : Operation → Option Descriptor
  | .allocate cls => some cls
  | _ => none

/-- Operations are compared part by part, where parts of another kind are absent. -/
theorem compare_eq_compareLex : Operation.compare =
    compareLex (compareOn rank) (compareLex (compareOn op?) (compareLex (compareOn numeric?)
      (compareLex (compareOn target?) (compareLex (compareOn kind?)
        (compareLex (compareOn keepsResult?) (compareOn cls?)))))) := by
  funext left right
  cases left <;> cases right <;>
    simp [Operation.compare, compareLex, compareOn, rank, op?, numeric?, target?, kind?,
      keepsResult?, cls?] <;> rfl

instance : TransOrd Operation := by
  change TransCmp Operation.compare
  rw [compare_eq_compareLex]
  infer_instance

instance : LawfulEqOrd Operation where
  eq_of_compare {left right} same := by
    change Operation.compare left right = .eq at same
    rw [compare_eq_compareLex] at same
    simp only [compareLex_eq_iff] at same
    obtain ⟨_, op, numeric, target, kind, keepsResult, cls⟩ := same
    have ops := eq_of_compareOn op
    have numerics := eq_of_compareOn numeric
    have targets := eq_of_compareOn target
    have kinds := eq_of_compareOn kind
    have kept := eq_of_compareOn keepsResult
    have classes := eq_of_compareOn cls
    cases left <;> cases right <;>
      simp_all [op?, numeric?, target?, kind?, keepsResult?, cls?]

end Operation

instance {α : Type} [Ord α] [TransOrd α] : TransCmp (compareSized (α := α)) :=
  inferInstanceAs (TransCmp (compareLex (compareOn List.length) (compareOn id)))

theorem eq_of_compareSized {α : Type} [Ord α] [LawfulEqOrd α] {left right : List α}
    (same : compareSized left right = .eq) : left = right :=
  eq_of_compareOn (compareLex_eq_iff.mp same).2

theorem transCmp_on {α β : Type} {cmp : β → β → Ordering} [TransCmp cmp] (key : α → β) :
    TransCmp fun left right => cmp (key left) (key right) where
  eq_swap := OrientedCmp.eq_swap
  isLE_trans := TransCmp.isLE_trans

instance : TransOrd Template :=
  have : TransCmp fun left right : Template => compareSized left.operations right.operations :=
    transCmp_on _
  have : TransCmp fun left right : Template => compareSized left.slots right.slots :=
    transCmp_on _
  inferInstanceAs <| TransCmp <|
  compareLex (compareOn Template.returnType) <|
  compareLex (compareOn Template.argumentTypes) <|
  compareLex (fun left right => compareSized left.operations right.operations)
    (fun left right => compareSized left.slots right.slots)

instance : LawfulEqOrd Template where
  eq_of_compare {left right} same := by
    obtain ⟨returns, rest⟩ := compareLex_eq_iff.mp same
    obtain ⟨arguments, rest⟩ := compareLex_eq_iff.mp rest
    obtain ⟨operations, slots⟩ := compareLex_eq_iff.mp rest
    cases left
    cases right
    obtain rfl := eq_of_compareOn returns
    obtain rfl := eq_of_compareOn arguments
    obtain rfl := eq_of_compareSized operations
    obtain rfl := eq_of_compareSized slots
    rfl

theorem le_trans {left middle right : Template} (first : left.le middle = true)
    (second : middle.le right = true) : left.le right = true :=
  TransOrd.isLE_trans first second

theorem le_total (left right : Template) : (left.le right || right.le left) = true := by
  have swapped : (compare right left).isLE = (compare left right).isGE :=
    OrientedCmp.isGE_eq_isLE.symm
  rw [le, le, swapped]
  cases compare left right <;> rfl

theorem compare_eq_lt {left right : Template} (before : left.le right = true)
    (distinct : left ≠ right) : compare left right = .lt := by
  rw [le] at before
  rcases compared : compare left right with _ | _ | _
  · rfl
  · exact absurd (LawfulEqOrd.eq_of_compare compared) distinct
  · rw [compared] at before
    cases before

end Template

open Outlining.Bytecode

theorem Template.pairwise_mergeSort {templates : List (TemplateIndex × Template)}
    (distinct : (templates.map Prod.snd).Nodup) :
    (templates.mergeSort fun left right => left.2.le right.2).Pairwise
      fun left right => compare left.2 right.2 = .lt := by
  let before (left right : TemplateIndex × Template) : Bool := left.2.le right.2
  have transitive (left middle right : TemplateIndex × Template) :
      before left middle = true → before middle right = true → before left right = true :=
    Template.le_trans
  have sorted := List.pairwise_mergeSort transitive
    (fun left right => Template.le_total left.2 right.2) templates
  have permuted := (List.mergeSort_perm templates before).map Prod.snd
  have apart := List.pairwise_map.mp (permuted.nodup_iff.mpr distinct)
  exact (sorted.and apart).imp fun both => Template.compare_eq_lt both.1 both.2

theorem Template.compare_self_ne_lt (template : Template) : compare template template ≠ .lt := by
  rw [Std.ReflOrd.compare_self]
  exact nofun

theorem Template.nodup_of_pairwise {templates : List Template}
    (sorted : templates.Pairwise fun before after => compare before after = .lt) :
    templates.Nodup := by
  apply sorted.imp
  rintro template _ before rfl
  exact template.compare_self_ne_lt before

theorem Template.eq_of_mem_iff {left right : List Template}
    (leftSorted : left.Pairwise fun before after => compare before after = .lt)
    (rightSorted : right.Pairwise fun before after => compare before after = .lt)
    (same : ∀ template, template ∈ left ↔ template ∈ right) : left = right := by
  have irreflexive : Std.Irrefl fun before after : Template => compare before after = .lt :=
    ⟨Template.compare_self_ne_lt⟩
  have antisymmetric : Std.Antisymm fun before after : Template => compare before after = .lt :=
    ⟨fun before after first second => by
      rw [Std.OrientedOrd.eq_swap, second] at first
      cases first⟩
  exact leftSorted.eq_of_mem_iff rightSorted same

private theorem Holder.inOrder_of_pairwise {templates : List (TemplateIndex × Template)}
    (sorted : templates.Pairwise fun left right => compare left.2 right.2 = .lt) :
    inOrder templates = true := by
  induction templates with
  | nil => rfl
  | cons first rest inductionHypothesis =>
    cases rest with
    | nil => rfl
    | cons second rest =>
      have before := (List.pairwise_cons.mp sorted).1 second List.mem_cons_self
      simp only [inOrder, Bool.and_eq_true, beq_iff_eq]
      exact ⟨before, inductionHypothesis sorted.tail⟩

/-- Templates that are sorted and distinct stand in the order that a holder asks for. -/
theorem Holder.inOrder_mergeSort {templates : List (TemplateIndex × Template)}
    (distinct : (templates.map Prod.snd).Nodup) :
    inOrder (templates.mergeSort fun left right => left.2.le right.2) = true :=
  inOrder_of_pairwise (Template.pairwise_mergeSort distinct)

end Outlining
