import Mathlib.Data.List.Count
import Mathlib.Data.List.Nodup
import Outlining.Proofs.Bytecode.Root

namespace Outlining.Bytecode

def Instruction.renamed (rename : Var → Var) (instruction : Instruction) : Instruction :=
  { instruction with
    operands := instruction.operands.map rename
    result := instruction.result.map rename }

def Block.renamed (rename : Var → Var) (block : Block) : Block :=
  { block with instructions := block.instructions.map (·.renamed rename) }

/-- Whether `copy` is a method with its values renamed, their types being carried along. The table
of `copy` may hold other values as well; no instruction names them. -/
structure Renamed (rename : Var → Var) (method copy : Method) : Prop where
  injective : ∀ left < method.types.length, ∀ right < method.types.length,
    rename left = rename right → left = right
  types : ∀ value < method.types.length, copy.types[rename value]? = method.types[value]?
  blocks : copy.blocks = method.blocks.map (·.renamed rename)

/-- Whether `copy` is a method with its values renamed, in a way that renames all numbers and takes
those outside the table to others outside. -/
structure Renaming (rename : Var → Var) (method copy : Method) : Prop where
  injective : Function.Injective rename
  types : ∀ value, copy.types[rename value]? = method.types[value]?
  blocks : copy.blocks = method.blocks.map (·.renamed rename)

variable {rename : Var → Var} {method copy : Method} {instruction : Instruction} {value : Var}

/-- A renaming of the values in the table, continued to all numbers. -/
def beyond (rename : Var → Var) (method copy : Method) (value : Var) : Var :=
  if value < method.types.length then rename value else copy.types.length + value

theorem beyond_of_lt (inside : value < method.types.length) :
    beyond rename method copy value = rename value :=
  if_pos inside

/-- Renamings that agree on the values of an instruction rename it alike. -/
theorem Instruction.renamed_congr {other : Var → Var}
    (same : ∀ value ∈ instruction.values, other value = rename value) :
    instruction.renamed other = instruction.renamed rename := by
  have operands : instruction.operands.map other = instruction.operands.map rename :=
    List.map_congr_left fun value read => same value (List.mem_append_left _ read)
  have result : instruction.result.map other = instruction.result.map rename :=
    Option.map_congr fun value written =>
      same value (List.mem_append_right _ (Option.mem_toList.mpr written))
  rw [renamed, renamed, operands, result]

theorem Renamed.renaming_beyond (renamed : Renamed rename method copy)
    (valid : method.defect? = none) : Renaming (beyond rename method copy) method copy where
  injective := by
    have apart {value : Var} (known : value < method.types.length) (other : Var) :
        rename value ≠ copy.types.length + other := by
      intro same
      have found := renamed.types value known
      rw [List.getElem?_eq_getElem known, same, List.getElem?_eq_none (Nat.le_add_right _ _)]
        at found
      cases found
    intro left right same
    by_cases leftKnown : left < method.types.length <;>
      by_cases rightKnown : right < method.types.length <;>
      simp only [beyond, leftKnown, rightKnown, if_true, if_false] at same
    · exact renamed.injective left leftKnown right rightKnown same
    · exact absurd same (apart leftKnown right)
    · exact absurd same.symm (apart rightKnown left)
    · exact Nat.add_left_cancel same
  types := by
    intro value
    by_cases inside : value < method.types.length
    · rw [beyond_of_lt inside, renamed.types value inside]
    · rw [beyond, if_neg inside, List.getElem?_eq_none (Nat.le_add_right _ _),
        List.getElem?_eq_none (Nat.not_lt.mp inside)]
  blocks := by
    rw [renamed.blocks]
    refine List.map_congr_left fun block present => ?_
    have instructions : block.instructions.map (·.renamed (beyond rename method copy)) =
        block.instructions.map (·.renamed rename) := by
      refine List.map_congr_left fun instruction member => ?_
      refine Instruction.renamed_congr fun value named => beyond_of_lt ?_
      exact lt_of_valid valid (List.mem_flatMap.mpr ⟨block, present, member⟩) named
    rw [Block.renamed, Block.renamed, instructions]

theorem Instruction.refinement?_renamed :
    (instruction.renamed rename).refinement? =
      instruction.refinement?.map (Prod.map rename rename) := by
  obtain ⟨opcode, operands, result, line⟩ := instruction
  cases opcode <;> cases operands <;> cases result <;> rfl

/-- Chasing parents under other names leads to the end of the chain under its other name. -/
theorem chase_renamed {parent renamed : Var → Var} (injective : Function.Injective rename)
    (moves : ∀ value, renamed (rename value) = rename (parent value)) (steps : Nat) (value : Var) :
    chase renamed steps (rename value) = rename (chase parent steps value) := by
  induction steps generalizing value with
  | zero => rfl
  | succ steps inductionHypothesis =>
    simp only [chase, moves, injective.eq_iff, inductionHypothesis]
    split
    · rfl
    · rfl

theorem chase_of_le {parent : Var → Var} {steps more : Nat} (enough : steps ≤ more)
    (ends : parent (chase parent steps value) = chase parent steps value) :
    chase parent more value = chase parent steps value := by
  induction enough with
  | refl => rfl
  | step _ inductionHypothesis =>
    rw [chase_succ parent (by rw [inductionHypothesis, ends]), inductionHypothesis]

namespace Renaming

variable (renames : Renaming rename method copy)
include renames

theorem lt_iff : rename value < copy.types.length ↔ value < method.types.length := by
  rw [← Nat.not_le, ← Nat.not_le, ← List.getElem?_eq_none_iff, ← List.getElem?_eq_none_iff,
    renames.types]

theorem length_le : method.types.length ≤ copy.types.length := by
  have among : (List.range method.types.length).map rename ⊆ List.range copy.types.length := by
    intro value member
    obtain ⟨source, listed, rfl⟩ := List.mem_map.mp member
    rw [List.mem_range] at listed ⊢
    exact renames.lt_iff.mpr listed
  have few := ((List.nodup_range).map renames.injective).length_le_of_subset among
  rwa [List.length_map, List.length_range, List.length_range] at few

theorem typeOf (value : Var) : copy.typeOf (rename value) = method.typeOf value := by
  rw [Method.typeOf, Method.typeOf, List.getD_eq_getElem?_getD, List.getD_eq_getElem?_getD,
    renames.types]

theorem instructions : copy.instructions = method.instructions.map (·.renamed rename) := by
  rw [Method.instructions, Method.instructions, renames.blocks, List.flatMap_map,
    List.map_flatMap]
  rfl

theorem reads : copy.reads = method.reads.map rename := by
  rw [Method.reads, Method.reads, renames.instructions, List.flatMap_map, List.map_flatMap]
  rfl

theorem refinements : copy.refinements = method.refinements.map (Prod.map rename rename) := by
  rw [Method.refinements, Method.refinements, renames.instructions, List.filterMap_map,
    List.map_filterMap]
  exact List.filterMap_congr fun _ _ => Instruction.refinement?_renamed

theorem parent (value : Var) : copy.parent (rename value) = rename (method.parent value) := by
  have found : copy.refinements.reverse.find? (·.1 == rename value) =
      (method.refinements.reverse.find? (·.1 == value)).map (Prod.map rename rename) := by
    rw [renames.refinements, ← List.map_reverse, List.find?_map]
    congr 2
    funext pair
    simp [renames.injective.eq_iff]
  rw [Method.parent, Method.parent, found]
  cases method.refinements.reverse.find? (·.1 == value) with
  | none => rfl
  | some pair => rfl

theorem reads_usage (value : Var) :
    (Usage.ofMethod copy).reads (rename value) = (Usage.ofMethod method).reads value := by
  simp only [Usage.reads_ofMethod, renames.lt_iff, renames.reads,
    List.count_map_of_injective _ _ renames.injective]

/-- The root of a value under its other name is the root of the value, under its other name. -/
theorem root_usage (valid : method.defect? = none) (acyclic : Acyclic method) (value : Var) :
    (Usage.ofMethod copy).root (rename value) = rename ((Usage.ofMethod method).root value) := by
  have closed : ∀ value < copy.types.length, copy.parent value < copy.types.length := by
    intro value inside
    refine parent_lt (fun instruction member operand read => ?_) inside
    rw [renames.instructions] at member
    obtain ⟨source, present, rfl⟩ := List.mem_map.mp member
    obtain ⟨origin, listed, rfl⟩ := List.mem_map.mp read
    exact renames.lt_iff.mpr (closed_of_valid valid source present origin listed)
  rw [Usage.root_ofMethod copy _ closed, root_eq valid]
  simp only [renames.lt_iff]
  split
  · rename_i inside
    -- the other table may allow for more steps, but a chain without a cycle has ended by then
    obtain ⟨rank, descends⟩ := acyclic
    have ends := parent_chase (fun _ inside => parent_lt (closed_of_valid valid) inside) descends
      inside
    rw [chase_renamed renames.injective renames.parent, chase_of_le renames.length_le ends]
  · rfl

end Renaming

end Outlining.Bytecode
