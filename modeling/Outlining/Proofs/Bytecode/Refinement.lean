import Mathlib.Data.Finset.Card
import Mathlib.Data.List.Nodup
import Mathlib.Logic.Relation
import Outlining.Proofs.Bytecode.Root

/-! Where refinements form no cycle, a value has fewer values behind it in chains of refinements the
further it is down such a chain, and never more than the table holds. So a walk of as many steps as
there are values comes to the end of every chain, in whatever order its refinements stand. In a
cycle it stops somewhere, but it never leaves the table. -/
namespace Outlining.Bytecode

variable {method : Method} {value source : Var}

/-- Whether some instruction refines `source` to `value`. -/
def Method.Refines (method : Method) (value source : Var) : Prop :=
  ∃ instruction ∈ method.instructions, instruction.refinement? = some (value, source)

open Classical in
/-- The values that some chain of refinements leads to from a value. -/
noncomputable def Method.behind (method : Method) (value : Var) : Finset Var :=
  (Finset.range method.types.length).filter (Relation.TransGen method.Refines value ·)

/-- Follows a table of parents like `chase`; `none` if the table lacks a value on the way. -/
def chase? (parents : Array Var) : Nat → Var → Option Var
  | 0, value => some value
  | steps + 1, value =>
    match parents[value]? with
    | none => none
    | some parent => if parent = value then some value else chase? parents steps parent

/-- Roots can be computed, and are values of the body. -/
structure RootsInside (method : Method) : Prop where
  /-- Reads are counted and parents noted only for values in the table. -/
  named : ∀ instruction ∈ method.instructions, ∀ value ∈ instruction.values,
    value < method.types.length
  /-- No step of a walk leaves the table. -/
  walks : ∀ value < method.types.length,
    chase? (tabulate method.types.length method.parent) method.types.length value =
      some ((Usage.ofMethod method).root value)
  inside : ∀ value < method.types.length, (Usage.ofMethod method).root value < method.types.length
  chained : ∀ value, Relation.ReflTransGen method.Refines value ((Usage.ofMethod method).root value)

/-- Roots are the ends of the chains of refinements. -/
structure RootsReached (method : Method) : Prop where
  fixed_iff : ∀ value, (Usage.ofMethod method).root value = value ↔
    ∀ instruction ∈ method.instructions, instruction.opcode = .refine →
      instruction.result ≠ some value
  refined : ∀ value source, method.Refines value source →
    (Usage.ofMethod method).root value = (Usage.ofMethod method).root source
  idempotent : ∀ value, (Usage.ofMethod method).root ((Usage.ofMethod method).root value) =
    (Usage.ofMethod method).root value
  /-- The walk does not stop before the end of the chain. -/
  ended : ∀ value source, ¬ method.Refines ((Usage.ofMethod method).root value) source

theorem refines_parent (moves : method.parent value ≠ value) :
    method.Refines value (method.parent value) :=
  (parent_eq_self_or method value).resolve_left moves

theorem reflTransGen_chase (method : Method) (steps : Nat) (value : Var) :
    Relation.ReflTransGen method.Refines value (chase method.parent steps value) := by
  induction steps generalizing value with
  | zero => exact .refl
  | succ steps inductionHypothesis =>
    rw [chase]
    split
    · exact .refl
    · rename_i moves
      exact .head (refines_parent moves) (inductionHypothesis (method.parent value))

theorem getElem?_tabulate {α : Type} {size : Nat} (result : Var → α) (inside : value < size) :
    (tabulate size result)[value]? = some (result value) := by
  simp [tabulate, inside]

theorem chase?_tabulate {parent : Var → Var} {size : Nat}
    (closed : ∀ value < size, parent value < size) (steps : Nat) (inside : value < size) :
    chase? (tabulate size parent) steps value = some (chase parent steps value) := by
  induction steps generalizing value with
  | zero => rfl
  | succ steps inductionHypothesis =>
    simp only [chase?, chase, getElem?_tabulate parent inside]
    split
    · rfl
    · exact inductionHypothesis (closed value inside)

theorem mem_behind_iff : source ∈ method.behind value ↔
    source < method.types.length ∧ Relation.TransGen method.Refines value source := by
  simp [Method.behind]

section Valid

variable (valid : method.defect? = none)
include valid

theorem rootsInside : RootsInside method where
  named := fun _ member _ named => lt_of_valid valid member named
  walks := by
    intro value inside
    rw [root_eq valid, if_pos inside]
    exact chase?_tabulate (fun _ inside => parent_lt (closed_of_valid valid) inside) _ inside
  inside := fun _ inside => root_lt (closed_of_valid valid) inside
  chained := by
    intro value
    rw [root_eq valid]
    split
    · exact reflTransGen_chase method _ value
    · exact .refl

theorem exists_refines {instruction : Instruction} (member : instruction ∈ method.instructions)
    (opcode : instruction.opcode = .refine) (writes : instruction.result = some value) :
    ∃ source, method.Refines value source := by
  have sound := (Instruction.defect?_eq_none_iff ..).mp (defect?_of_mem valid member)
  obtain ⟨source, operands⟩ := List.length_eq_one_iff.mp (sound.2 opcode)
  exact ⟨source, instruction, member, by simp [Instruction.refinement?, opcode, operands, writes]⟩

/-- Without a cycle, the values behind a value include its parent and all those behind its parent,
but not itself. -/
theorem grounded_of_no_cycle (apart : ∀ value, ¬ Relation.TransGen method.Refines value value) :
    Grounded method := by
  refine ⟨fun value => (method.behind value).card, fun instruction member value source refines => ?_⟩
  obtain ⟨refinement, present, known⟩ := exists_refinement_parent member refines
  have step : method.Refines value (method.parent value) := ⟨refinement, present, known⟩
  have inside : method.parent value < method.types.length :=
    closed_of_valid valid refinement present _ (operands_of_refinement? known).1
  have fewer : method.behind (method.parent value) ⊆ method.behind value := by
    intro other listed
    obtain ⟨named, further⟩ := mem_behind_iff.mp listed
    exact mem_behind_iff.mpr ⟨named, .head step further⟩
  have itself : method.parent value ∉ method.behind (method.parent value) :=
    fun listed => apart _ (mem_behind_iff.mp listed).2
  exact Finset.card_lt_card ((Finset.ssubset_iff_of_subset fewer).mpr
    ⟨method.parent value, mem_behind_iff.mpr ⟨inside, .single step⟩, itself⟩)

end Valid

/-- A value that one instruction refines only has what this one refines as its parent. -/
theorem parent_eq_of_refines (once : (method.refinements.map Prod.fst).Nodup)
    (refines : method.Refines value source) : method.parent value = source := by
  obtain ⟨instruction, member, known⟩ := refines
  obtain ⟨refinement, present, last⟩ := exists_refinement_parent member known
  have same := List.inj_on_of_nodup_map once
    (List.mem_filterMap.mpr ⟨refinement, present, last⟩)
    (List.mem_filterMap.mpr ⟨instruction, member, known⟩) rfl
  exact (Prod.mk.inj same).2

/-- In a valid body roots are found in the table. If no value is the result of two refinements and
refinements form no cycle, they are the ends of all chains. -/
theorem roots_reached (valid : method.defect? = none) : RootsInside method ∧
    ((method.refinements.map Prod.fst).Nodup →
      (∀ value, ¬ Relation.TransGen method.Refines value value) → RootsReached method) := by
  refine ⟨rootsInside valid, fun once apart => ?_⟩
  have grounded := grounded_of_no_cycle valid apart
  have ended (value source : Var) :
      ¬ method.Refines ((Usage.ofMethod method).root value) source := by
    rintro ⟨instruction, member, refines⟩
    exact grounded.root_ne valid member refines value rfl
  refine ⟨fun value => ⟨fun fixed instruction member opcode writes => ?_, fun plain => ?_⟩,
    fun value source refines => ?_, root_root valid grounded.acyclic, ended⟩
  · obtain ⟨source, refines⟩ := exists_refines valid member opcode writes
    exact ended value source (fixed.symm ▸ refines)
  · by_contra moves
    obtain ⟨instruction, member, refines⟩ :=
      refines_parent fun fixed => moves (root_of_parent_eq valid fixed)
    obtain ⟨opcode, writes, _⟩ := Instruction.refinement?_eq_some_iff.mp refines
    exact plain instruction member opcode writes
  · rw [← parent_eq_of_refines once refines, root_parent valid grounded.acyclic]

/-- A body with a chain of refinements that runs against the order of its blocks and values. -/
def refinesBackwards : Method where
  index := 0
  reference := ⟨⟨"LA;"⟩, "m", ⟨.void, [.int]⟩⟩
  types := List.replicate 4 (.number .int)
  blocks := [⟨0, [⟨.refine, [1], some 0, none⟩, ⟨.refine, [2], some 1, none⟩], [], []⟩,
    ⟨1, [⟨.refine, [3], some 2, none⟩, ⟨.argument 0, [], some 3, none⟩], [], []⟩]
  synthetic := false

/-- A body with two values that refine each other. -/
def refinesEachOther : Method where
  index := 0
  reference := ⟨⟨"LA;"⟩, "m", ⟨.void, []⟩⟩
  types := [.null, .null]
  blocks := [⟨0, [⟨.refine, [1], some 0, none⟩, ⟨.refine, [0], some 1, none⟩], [], []⟩]
  synthetic := false

theorem lt_of_refinesBackwards (chain : Relation.TransGen refinesBackwards.Refines value source) :
    value < source := by
  have step {value source : Var} (refines : refinesBackwards.Refines value source) :
      value < source := by
    obtain ⟨instruction, member, known⟩ := refines
    simp [refinesBackwards, Method.instructions] at member
    rcases member with rfl | rfl | rfl | rfl <;> cases known <;> decide
  induction chain with
  | single refines => exact step refines
  | tail _ refines inductionHypothesis => exact Nat.lt_trans inductionHypothesis (step refines)

theorem roots_of_refinesBackwards :
    refinesBackwards.defect? = none ∧ (refinesBackwards.refinements.map Prod.fst).Nodup ∧
      (∀ value, ¬ Relation.TransGen refinesBackwards.Refines value value) ∧
      RootsReached refinesBackwards ∧ (Usage.ofMethod refinesBackwards).root 0 = 3 ∧
    refinesEachOther.defect? = none ∧ RootsInside refinesEachOther := by
  have valid : refinesBackwards.defect? = none := by decide
  have once : (refinesBackwards.refinements.map Prod.fst).Nodup := by decide
  have apart (value : Var) : ¬ Relation.TransGen refinesBackwards.Refines value value :=
    fun chain => Nat.lt_irrefl _ (lt_of_refinesBackwards chain)
  have other : refinesEachOther.defect? = none := by decide
  exact ⟨valid, once, apart, (roots_reached valid).2 once apart, by decide, other,
    (roots_reached other).1⟩

end Outlining.Bytecode
