import Mathlib.Data.List.Basic
import Outlining.Bytecode.Validity
import Outlining.Template.Operation
import Outlining.Window.Role

namespace Outlining.Bytecode.Instruction

open Outlining.Window Outlining.Template

variable {instruction : Instruction}

theorem role_eq_literal_iff :
    instruction.role = .literal ↔ ∃ value, instruction.opcode = .literal value := by
  unfold role
  constructor
  · intro literal
    split at literal
    · exact ⟨_, by assumption⟩
    all_goals first | (split at literal <;> cases literal) | cases literal
  · rintro ⟨value, opcode⟩
    rw [opcode]

theorem role_eq_refinement_iff : instruction.role = .refinement ↔
    instruction.opcode = .refine ∧ ∃ source result,
      instruction.operands = [source] ∧ instruction.result = some result := by
  unfold role
  constructor
  · intro refinement
    split at refinement
    · cases refinement
    · rename_i opcode
      split at refinement
      · rename_i shape
        simp only [Bool.and_eq_true, decide_eq_true_eq] at shape
        obtain ⟨source, operands⟩ := List.length_eq_one_iff.mp shape.1
        obtain ⟨result, produced⟩ := Option.isSome_iff_exists.mp shape.2
        exact ⟨opcode, source, result, operands, produced⟩
      · cases refinement
    all_goals first | (split at refinement <;> cases refinement) | cases refinement
  · rintro ⟨opcode, source, result, operands, produced⟩
    simp [opcode, operands, produced]

theorem role_eq_arithmetic_iff : instruction.role = .arithmetic ↔
    ∃ op numeric left right result, instruction.opcode = .arithmetic op numeric ∧
      op.isArithmetic = true ∧ instruction.operands = [left, right] ∧
      instruction.result = some result := by
  unfold role
  constructor
  · intro arithmetic
    split at arithmetic
    · cases arithmetic
    · split at arithmetic <;> cases arithmetic
    · rename_i op numeric opcode
      split at arithmetic
      · rename_i shape
        simp only [Bool.and_eq_true, decide_eq_true_eq] at shape
        obtain ⟨left, right, operands⟩ := List.length_eq_two.mp shape.1.2
        obtain ⟨result, produced⟩ := Option.isSome_iff_exists.mp shape.2
        exact ⟨op, numeric, left, right, result, opcode, shape.1.1, operands, produced⟩
      · cases arithmetic
    all_goals first | (split at arithmetic <;> cases arithmetic) | cases arithmetic
  · rintro ⟨op, numeric, left, right, result, opcode, works, operands, produced⟩
    simp [opcode, works, operands, produced]

theorem role_eq_allocation_iff : instruction.role = .allocation ↔
    ∃ cls result, instruction.opcode = .allocate cls ∧ instruction.result = some result := by
  unfold role
  constructor
  · intro allocation
    split at allocation
    · cases allocation
    · split at allocation <;> cases allocation
    · split at allocation <;> cases allocation
    · rename_i cls opcode
      split at allocation
      · rename_i produced
        obtain ⟨result, produced⟩ := Option.isSome_iff_exists.mp produced
        exact ⟨cls, result, opcode, produced⟩
      · cases allocation
    all_goals first | (split at allocation <;> cases allocation) | cases allocation
  · rintro ⟨cls, result, opcode, produced⟩
    simp [opcode, produced]

theorem role_eq_call_iff : instruction.role = .call ↔
    ∃ kind target relocatable, instruction.opcode = .call kind target relocatable ∧
      instruction.operands.length = target.arity kind ∧
      (instruction.result.isSome = true → target.prototype.returnType.isVoid = false) := by
  unfold role
  constructor
  · intro call
    split at call
    · cases call
    · split at call <;> cases call
    · split at call <;> cases call
    · split at call <;> cases call
    · rename_i kind target relocatable opcode
      split at call
      · rename_i shape
        simp only [Bool.and_eq_true, Bool.or_eq_true, decide_eq_true_eq, Option.isNone_iff_eq_none,
          Bool.not_eq_true'] at shape
        refine ⟨kind, target, relocatable, opcode, shape.1, fun produced => ?_⟩
        rcases shape.2 with none | typed
        · simp [none] at produced
        · exact typed
      · cases call
    · cases call
  · rintro ⟨kind, target, relocatable, opcode, operands, typed⟩
    cases produced : instruction.result with
    | none => simp [opcode, operands]
    | some result => simp [opcode, operands, typed (by simp [produced])]

/-- In a valid body the refinements are the instructions that refine something. -/
theorem role_of_refinement? {types : Nat} {refined : Var × Var}
    (valid : instruction.defect? types = none) (refines : instruction.refinement? = some refined) :
    instruction.role = .refinement := by
  obtain ⟨result, source⟩ := refined
  obtain ⟨opcode, writes, first⟩ := refinement?_eq_some_iff.mp refines
  obtain ⟨others, operands⟩ := List.head?_eq_some_iff.mp first
  have one := ((Instruction.defect?_eq_none_iff ..).mp valid).2 opcode
  rw [operands] at one
  refine role_eq_refinement_iff.mpr ⟨opcode, source, result, ?_, writes⟩
  rw [operands, List.length_eq_zero_iff.mp (Nat.succ.inj one)]

theorem isOperation_cases (operates : instruction.isOperation = true) :
    instruction.role = .arithmetic ∨ instruction.role = .allocation ∨ instruction.role = .call := by
  unfold isOperation at operates
  revert operates
  cases instruction.role <;> decide

theorem isTransparent_cases (transparent : instruction.isTransparent = true) :
    instruction.role = .literal ∨ instruction.role = .refinement := by
  unfold isTransparent at transparent
  revert transparent
  cases instruction.role <;> decide

theorem isOperation_eq_false (transparent : instruction.isTransparent = true) :
    instruction.isOperation = false := by
  unfold isOperation
  rcases isTransparent_cases transparent with role | role <;> rw [role] <;> rfl

theorem isTransparent_eq_false (operates : instruction.isOperation = true) :
    instruction.isTransparent = false := by
  unfold isTransparent
  rcases isOperation_cases operates with role | role | role <;> rw [role] <;> rfl

theorem refinement?_eq_none (operates : instruction.isOperation = true) :
    instruction.refinement? = none := by
  rcases isOperation_cases operates with role | role | role
  · obtain ⟨_, _, _, _, _, opcode, _⟩ := role_eq_arithmetic_iff.mp role
    simp [refinement?, opcode]
  · obtain ⟨_, _, opcode, _⟩ := role_eq_allocation_iff.mp role
    simp [refinement?, opcode]
  · obtain ⟨_, _, _, opcode, _⟩ := role_eq_call_iff.mp role
    simp [refinement?, opcode]

theorem isTransparent_of_call {kind : CallKind} {target : Reference} {relocatable : Bool}
    (opcode : instruction.opcode = .call kind target relocatable) :
    instruction.isTransparent = false := by
  rw [Bool.eq_false_iff]
  intro transparent
  rcases isTransparent_cases transparent with role | role
  · obtain ⟨_, literal⟩ := role_eq_literal_iff.mp role
    simp [literal] at opcode
  · simp [(role_eq_refinement_iff.mp role).1] at opcode

theorem exists_call_of_constructor
    (calls : instruction.target?.any (·.isConstructor) = true) :
    ∃ kind target relocatable, instruction.opcode = .call kind target relocatable ∧
      target.isConstructor = true := by
  unfold target? at calls
  split at calls
  · rename_i kind target relocatable opcode
    exact ⟨kind, target, relocatable, opcode, calls⟩
  · cases calls

/-- What an operation does, and that it reads and produces what the template says; an allocation
may have operands that no template knows of. -/
theorem exists_operation (operates : instruction.isOperation = true) :
    ∃ operation, Operation.ofInstruction? instruction = some operation ∧
      (instruction.role = .allocation ∨ instruction.operands.length = operation.arity) ∧
      operation.hasResult = instruction.result.isSome := by
  rcases isOperation_cases operates with role | role | role
  · obtain ⟨op, numeric, left, right, result, opcode, works, operands, produced⟩ :=
      role_eq_arithmetic_iff.mp role
    exact ⟨.arithmetic op numeric, by simp [Operation.ofInstruction?, opcode, works],
      .inr (by simp [operands, Operation.arity]), by simp [produced, Operation.hasResult]⟩
  · obtain ⟨cls, result, opcode, produced⟩ := role_eq_allocation_iff.mp role
    exact ⟨.allocate cls, by simp [Operation.ofInstruction?, opcode], .inl role,
      by simp [produced, Operation.hasResult]⟩
  · obtain ⟨kind, target, relocatable, opcode, operands, _⟩ := role_eq_call_iff.mp role
    exact ⟨.call target kind instruction.result.isSome,
      by simp [Operation.ofInstruction?, opcode],
      .inr operands, rfl⟩

end Outlining.Bytecode.Instruction
