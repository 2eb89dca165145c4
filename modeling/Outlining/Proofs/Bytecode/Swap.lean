import Mathlib.Data.List.Count
import Mathlib.Data.List.Forall2
import Outlining.Bytecode.Usage
import Outlining.Proofs.Window.Operation

namespace Outlining.Bytecode

/-- Whether two instructions are one, but for the order of the operands of a sum or a product. -/
inductive Swap : Instruction → Instruction → Prop
  | same (instruction : Instruction) : Swap instruction instruction
  | swapped {op : BinaryOp} (numeric : Numeric) (left right : Var) (result : Option Var)
      (line : Option Nat) (symmetric : op = .add ∨ op = .mul) :
      Swap ⟨.arithmetic op numeric, [left, right], result, line⟩
        ⟨.arithmetic op numeric, [right, left], result, line⟩

/-- Whether two blocks are one, but for the order of the operands of sums and products. -/
structure Block.Swaps (block twin : Block) : Prop where
  label : twin.label = block.label
  successors : twin.successors = block.successors
  handlers : twin.handlers = block.handlers
  instructions : block.instructions.Forall₂ Swap twin.instructions

/-- Whether two methods are one, but for the order of the operands of sums and products. -/
structure Method.Swaps (method twin : Method) : Prop where
  index : twin.index = method.index
  reference : twin.reference = method.reference
  types : twin.types = method.types
  synthetic : twin.synthetic = method.synthetic
  blocks : method.blocks.Forall₂ Block.Swaps twin.blocks

variable {instruction instruction' : Instruction} {method twin : Method}

namespace Swap

variable (swap : Swap instruction instruction')
include swap

theorem opcode : instruction'.opcode = instruction.opcode := by cases swap <;> rfl

theorem result : instruction'.result = instruction.result := by cases swap <;> rfl

theorem operands : instruction'.operands.Perm instruction.operands := by
  cases swap with
  | same => exact .refl _
  | swapped numeric left right => exact .swap left right []

theorem role : instruction'.role = instruction.role := by
  simp only [Instruction.role, swap.opcode, swap.result, swap.operands.length_eq]

theorem isTransparent : instruction'.isTransparent = instruction.isTransparent := by
  rw [Instruction.isTransparent, Instruction.isTransparent, swap.role]

theorem isOperation : instruction'.isOperation = instruction.isOperation := by
  rw [Instruction.isOperation, Instruction.isOperation, swap.role]

theorem target? : instruction'.target? = instruction.target? := by
  simp only [Instruction.target?, swap.opcode]

theorem operation : Template.Operation.ofInstruction? instruction' =
    Template.Operation.ofInstruction? instruction := by
  simp only [Template.Operation.ofInstruction?, swap.opcode, swap.result]

theorem refinement? : instruction'.refinement? = instruction.refinement? := by
  cases swap <;> rfl

theorem eq_of_opcode (solid : ∀ op numeric, instruction.opcode ≠ .arithmetic op numeric) :
    instruction' = instruction := by
  cases swap with
  | same => rfl
  | swapped numeric => exact absurd rfl (solid _ numeric)

theorem eq_of_isTransparent (transparent : instruction.isTransparent = true) :
    instruction' = instruction := by
  refine swap.eq_of_opcode fun op numeric opcode => ?_
  rcases Instruction.isTransparent_cases transparent with role | role
  · obtain ⟨value, literal⟩ := Instruction.role_eq_literal_iff.mp role
    simp [opcode] at literal
  · have refines := (Instruction.role_eq_refinement_iff.mp role).1
    simp [opcode] at refines

end Swap

namespace Method.Swaps

variable (swaps : method.Swaps twin)
include swaps

theorem instructions : method.instructions.Forall₂ Swap twin.instructions :=
  List.rel_flatMap swaps.blocks fun _ _ blocks => blocks.instructions

theorem reads : twin.reads.Perm method.reads := by
  have pairs := swaps.instructions
  unfold Method.reads
  generalize method.instructions = instructions, twin.instructions = twins at pairs
  induction pairs with
  | nil => exact .refl _
  | cons swap _ inductionHypothesis =>
    rw [List.flatMap_cons, List.flatMap_cons]
    exact swap.operands.append inductionHypothesis

theorem refinements : twin.refinements = method.refinements := by
  have pairs := swaps.instructions
  unfold Method.refinements
  generalize method.instructions = instructions, twin.instructions = twins at pairs
  induction pairs with
  | nil => rfl
  | cons swap _ inductionHypothesis =>
    rw [List.filterMap_cons, List.filterMap_cons, swap.refinement?, inductionHypothesis]

/-- The order of the operands has no part in how often values are read or in what they stand for. -/
theorem usage : Usage.ofMethod twin = Usage.ofMethod method := by
  have parents : twin.parent = method.parent := by
    funext value
    rw [Method.parent, Method.parent, swaps.refinements]
  simp only [Usage.ofMethod, swaps.types, parents, swaps.reads.count_eq]

end Method.Swaps

end Outlining.Bytecode
