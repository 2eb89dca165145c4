import Mathlib.Data.List.Basic
import Outlining.Bytecode.Usage
import Outlining.Bytecode.Validity

/-! In a valid body every value lies in the table of values, so roots do too. If moreover parents
have smaller ranks than the values that refine them, the steps that are allowed reach the end of
every chain: a root refines nothing, and a value has the root of its parent. -/
namespace Outlining.Bytecode

variable {method : Method} {instruction : Instruction} {value : Var}

/-- Where the blocks of a method stand at their labels. -/
def Labelled (method : Method) : Prop :=
  ∀ (place : Nat) (block : Block), method.blocks[place]? = some block → block.label = place

theorem Labelled.getElem? (labelled : Labelled method) {block : Block}
    (present : block ∈ method.blocks) : method.blocks[block.label]? = some block := by
  obtain ⟨place, found⟩ := List.mem_iff_getElem?.mp present
  rw [labelled place block found]
  exact found

theorem labelled_of_valid (valid : method.defect? = none) : Labelled method := by
  intro place block found
  have whole := (Method.defect?_eq_none_iff method).mp valid place block found
  exact ((Block.defect?_eq_none_iff ..).mp whole).1

theorem target_lt_of_valid (valid : method.defect? = none) {block : Block}
    (present : block ∈ method.blocks) {target : Label} (leads : target ∈ block.targets) :
    target < method.blocks.length := by
  obtain ⟨place, found⟩ := List.mem_iff_getElem?.mp present
  have whole := (Method.defect?_eq_none_iff method).mp valid place block found
  exact ((Block.defect?_eq_none_iff ..).mp whole).2.1 target leads

theorem defect?_of_mem (valid : method.defect? = none) (member : instruction ∈ method.instructions) :
    instruction.defect? method.types.length = none := by
  obtain ⟨block, present, inside⟩ := List.mem_flatMap.mp member
  obtain ⟨place, found⟩ := List.mem_iff_getElem?.mp present
  have whole := (Method.defect?_eq_none_iff method).mp valid place block found
  exact ((Block.defect?_eq_none_iff ..).mp whole).2.2 instruction inside

theorem lt_of_valid (valid : method.defect? = none) (member : instruction ∈ method.instructions)
    (named : value ∈ instruction.values) : value < method.types.length :=
  ((Instruction.defect?_eq_none_iff ..).mp (defect?_of_mem valid member)).1 value named

theorem Instruction.defect?_mono {fewer more : Nat} (grows : fewer ≤ more)
    (sound : instruction.defect? fewer = none) : instruction.defect? more = none := by
  rw [Instruction.defect?_eq_none_iff] at sound ⊢
  exact ⟨fun value named => Nat.lt_of_lt_of_le (sound.1 value named) grows, sound.2⟩

theorem lt_of_result {types : Nat} (sound : instruction.defect? types = none)
    (result : instruction.result = some value) : value < types :=
  ((Instruction.defect?_eq_none_iff ..).mp sound).1 value
    (List.mem_append_right _ (by simp [result]))

/-- A value either refines nothing, or its parent is what some refinement with that result
refines. -/
theorem parent_eq_self_or (method : Method) (value : Var) : method.parent value = value ∨
    ∃ instruction ∈ method.instructions,
      instruction.refinement? = some (value, method.parent value) := by
  unfold Method.parent
  split
  · rename_i result source found
    have member := List.mem_reverse.mp (List.mem_of_find?_eq_some found)
    obtain ⟨instruction, present, refines⟩ := List.mem_filterMap.mp member
    obtain rfl : result = value := by simpa using List.find?_some found
    exact .inr ⟨instruction, present, refines⟩
  · exact .inl rfl

/-- If some refinement has a value as its result, the parent of the value is what one of them
refines. -/
theorem exists_refinement_parent {source : Var} (member : instruction ∈ method.instructions)
    (refines : instruction.refinement? = some (value, source)) :
    ∃ refinement ∈ method.instructions,
      refinement.refinement? = some (value, method.parent value) := by
  unfold Method.parent
  split
  · rename_i result other found
    have listed := List.mem_reverse.mp (List.mem_of_find?_eq_some found)
    obtain ⟨refinement, present, known⟩ := List.mem_filterMap.mp listed
    obtain rfl : result = value := by simpa using List.find?_some found
    exact ⟨refinement, present, known⟩
  · rename_i missing
    have absent := List.find?_eq_none.mp missing (value, source)
      (List.mem_reverse.mpr (List.mem_filterMap.mpr ⟨instruction, member, refines⟩))
    simp at absent

theorem operands_of_refinement? {result source : Var}
    (refines : instruction.refinement? = some (result, source)) :
    source ∈ instruction.operands ∧ instruction.result = some result := by
  obtain ⟨_, writes, first⟩ := Instruction.refinement?_eq_some_iff.mp refines
  exact ⟨List.mem_of_head? first, writes⟩

theorem parent_lt (closed : ∀ instruction ∈ method.instructions,
    ∀ value ∈ instruction.operands, value < method.types.length)
    (inside : value < method.types.length) : method.parent value < method.types.length := by
  rcases parent_eq_self_or method value with fixed | ⟨instruction, present, refines⟩
  · rwa [fixed]
  · exact closed instruction present _ (operands_of_refinement? refines).1

theorem chase_lt {parent : Var → Var} {size : Nat} (closed : ∀ value < size, parent value < size)
    (steps : Nat) (inside : value < size) : chase parent steps value < size := by
  induction steps generalizing value with
  | zero => exact inside
  | succ steps inductionHypothesis =>
    rw [chase]
    split
    · exact inside
    · exact inductionHypothesis (closed value inside)

/-- The root of a value in the table is in the table, also where refinements form a cycle. -/
theorem root_lt (closed : ∀ instruction ∈ method.instructions,
    ∀ value ∈ instruction.operands, value < method.types.length)
    (inside : value < method.types.length) :
    (Usage.ofMethod method).root value < method.types.length := by
  have parents : ∀ value < method.types.length, method.parent value < method.types.length :=
    fun value inside => parent_lt closed inside
  rw [Usage.root_ofMethod method value parents, if_pos inside]
  exact chase_lt parents _ inside

section Descent

variable {parent : Var → Var} {rank : Var → Nat} {size : Nat}

private theorem length_lt_of_above {seen : List Var} (distinct : seen.Nodup)
    (above : ∀ other ∈ seen, other < size ∧ rank value < rank other) (inside : value < size) :
    seen.length < size := by
  have fresh : value ∉ seen := fun member => Nat.lt_irrefl _ (above value member).2
  have among : value :: seen ⊆ List.range size := by
    intro other member
    rw [List.mem_range]
    rcases List.mem_cons.mp member with rfl | member
    · exact inside
    · exact (above other member).1
  have few := (List.nodup_cons.mpr ⟨fresh, distinct⟩).length_le_of_subset among
  rw [List.length_range] at few
  exact few

private theorem parent_chase_of_seen (closed : ∀ value < size, parent value < size)
    (descends : ∀ value, parent value ≠ value → rank (parent value) < rank value)
    (steps : Nat) {seen : List Var} (distinct : seen.Nodup)
    (above : ∀ other ∈ seen, other < size ∧ rank value < rank other)
    (enough : size ≤ steps + seen.length) (inside : value < size) :
    parent (chase parent steps value) = chase parent steps value := by
  induction steps generalizing value seen with
  | zero =>
    have room := length_lt_of_above distinct above inside
    omega
  | succ steps inductionHypothesis =>
    rw [chase]
    split
    · assumption
    · rename_i moves
      have lower := descends value moves
      have fresh : value ∉ seen := fun member => Nat.lt_irrefl _ (above value member).2
      refine inductionHypothesis (List.nodup_cons.mpr ⟨fresh, distinct⟩) ?_ ?_
        (closed value inside)
      · intro other member
        rcases List.mem_cons.mp member with rfl | member
        · exact ⟨inside, lower⟩
        · exact ⟨(above other member).1, Nat.lt_trans lower (above other member).2⟩
      · rw [List.length_cons]
        omega

/-- As many steps as there are values reach the end of a chain whose ranks get smaller. -/
theorem parent_chase (closed : ∀ value < size, parent value < size)
    (descends : ∀ value, parent value ≠ value → rank (parent value) < rank value)
    (inside : value < size) :
    parent (chase parent size value) = chase parent size value :=
  parent_chase_of_seen closed descends size List.nodup_nil (by simp) (by simp) inside

theorem chase_succ (parent : Var → Var) {steps : Nat}
    (ends : parent (chase parent steps value) = chase parent steps value) :
    chase parent (steps + 1) value = chase parent steps value := by
  induction steps generalizing value with
  | zero =>
    have fixed : parent value = value := ends
    simp [chase, fixed]
  | succ steps inductionHypothesis =>
    by_cases fixed : parent value = value
    · simp [chase, fixed]
    · have step (steps : Nat) :
          chase parent (steps + 1) value = chase parent steps (parent value) := by
        rw [chase, if_neg fixed]
      rw [step] at ends ⊢
      rw [step]
      exact inductionHypothesis ends

end Descent

/-- Parents have smaller ranks than the values that refine them. -/
def Acyclic (method : Method) : Prop :=
  ∃ rank : Var → Nat, ∀ value, method.parent value ≠ value → rank (method.parent value) < rank value

theorem closed_of_valid (valid : method.defect? = none) : ∀ instruction ∈ method.instructions,
    ∀ value ∈ instruction.operands, value < method.types.length :=
  fun _ member _ read => lt_of_valid valid member (List.mem_append_left _ read)

theorem root_eq (valid : method.defect? = none) (value : Var) :
    (Usage.ofMethod method).root value =
      if value < method.types.length then chase method.parent method.types.length value
      else value :=
  Usage.root_ofMethod method value fun _ inside => parent_lt (closed_of_valid valid) inside

theorem parent_of_le (valid : method.defect? = none) (outside : method.types.length ≤ value) :
    method.parent value = value := by
  rcases parent_eq_self_or method value with fixed | ⟨instruction, member, refines⟩
  · exact fixed
  · have result := (operands_of_refinement? refines).2
    have named : value ∈ instruction.values := List.mem_append_right _ (by simp [result])
    exact absurd (lt_of_valid valid member named) (Nat.not_lt.mpr outside)

theorem root_of_parent_eq (valid : method.defect? = none) (fixed : method.parent value = value) :
    (Usage.ofMethod method).root value = value := by
  rw [root_eq valid]
  split
  · cases method.types.length with
    | zero => rfl
    | succ size => rw [chase, if_pos fixed]
  · rfl

theorem parent_root (valid : method.defect? = none) (acyclic : Acyclic method) (value : Var) :
    method.parent ((Usage.ofMethod method).root value) = (Usage.ofMethod method).root value := by
  rw [root_eq valid]
  split
  · rename_i inside
    obtain ⟨rank, descends⟩ := acyclic
    exact parent_chase (fun _ inside => parent_lt (closed_of_valid valid) inside) descends inside
  · rename_i outside
    exact parent_of_le valid (Nat.not_lt.mp outside)

theorem root_root (valid : method.defect? = none) (acyclic : Acyclic method) (value : Var) :
    (Usage.ofMethod method).root ((Usage.ofMethod method).root value) =
      (Usage.ofMethod method).root value :=
  root_of_parent_eq valid (parent_root valid acyclic value)

theorem root_parent (valid : method.defect? = none) (acyclic : Acyclic method) (value : Var) :
    (Usage.ofMethod method).root (method.parent value) = (Usage.ofMethod method).root value := by
  by_cases fixed : method.parent value = value
  · rw [fixed]
  · have inside : value < method.types.length := by
      by_contra outside
      exact fixed (parent_of_le valid (Nat.not_lt.mp outside))
    have ends := parent_root valid acyclic value
    rw [root_eq valid, if_pos inside] at ends
    rw [root_eq valid, root_eq valid, if_pos inside,
      if_pos (parent_lt (closed_of_valid valid) inside), ← chase_succ _ ends, chase, if_neg fixed]

/-- What holds of the values that refine nothing, and passes from parents to the values that refine
them, holds of all values. -/
theorem Acyclic.induction (acyclic : Acyclic method) {motive : Var → Prop}
    (fixed : ∀ value, method.parent value = value → motive value)
    (refined : ∀ value, method.parent value ≠ value → motive (method.parent value) → motive value)
    (value : Var) : motive value := by
  obtain ⟨rank, descends⟩ := acyclic
  induction height : rank value using Nat.strongRecOn generalizing value with
  | ind height inductionHypothesis =>
    by_cases still : method.parent value = value
    · exact fixed value still
    · exact refined value still
        (inductionHypothesis _ (height ▸ descends value still) _ rfl)

/-- Every value that a refinement writes has a parent of smaller rank, so that no refinements form a
cycle, and none refines its own result. -/
def Grounded (method : Method) : Prop :=
  ∃ rank : Var → Nat, ∀ instruction ∈ method.instructions, ∀ value source,
    instruction.refinement? = some (value, source) → rank (method.parent value) < rank value

namespace Grounded

variable (grounded : Grounded method)
include grounded

theorem acyclic : Acyclic method := by
  obtain ⟨rank, descends⟩ := grounded
  refine ⟨rank, fun value moves => ?_⟩
  rcases parent_eq_self_or method value with fixed | ⟨instruction, member, refines⟩
  · exact absurd fixed moves
  · exact descends instruction member value _ refines

theorem root_ne (valid : method.defect? = none) {source : Var}
    (member : instruction ∈ method.instructions)
    (refines : instruction.refinement? = some (value, source)) (other : Var) :
    (Usage.ofMethod method).root other ≠ value := by
  rintro rfl
  have fixed := parent_root valid grounded.acyclic other
  obtain ⟨rank, descends⟩ := grounded
  have lower := descends instruction member _ source refines
  rw [fixed] at lower
  exact Nat.lt_irrefl _ lower

end Grounded

end Outlining.Bytecode
