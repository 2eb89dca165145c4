import Mathlib.Tactic.Ring
import Outlining.Proofs.Window.Liveness

namespace Outlining

open Outlining.Bytecode

namespace Bytecode

variable {method : Method}

theorem reads_le (method : Method) (value : Var) :
    (Usage.ofMethod method).reads value ≤ method.reads.length := by
  rw [Usage.reads_ofMethod]
  split
  · exact List.count_le_length
  · exact Nat.zero_le _

theorem length_operands_le {block : Block} (present : block ∈ method.blocks)
    {before taken after : List Instruction} (split : block.instructions = before ++ taken ++ after) :
    (taken.flatMap (·.operands)).length ≤ method.reads.length := by
  obtain ⟨earlier, later, blocks⟩ := List.append_of_mem present
  rw [Method.reads, Method.instructions, blocks]
  simp only [List.flatMap_append, List.flatMap_cons, List.length_append, split]
  omega

end Bytecode

namespace Window

variable {scope : Scope} {taken : List Instruction} {window : Window} {temporary : Temporary}

/-- Every refinement adds at most as many reads as some value has. -/
theorem Grown.readsLeft_le {bound : Nat} (grown : Grown scope taken window)
    (most : ∀ value, scope.usage.reads value ≤ bound) (known : window.temporary = some temporary) :
    temporary.readsLeft ≤ bound + taken.countP (·.role == .refinement) * (bound - 1) := by
  induction grown generalizing temporary with
  | start => cases known
  | @literal taken window instruction grown begun role inductionHypothesis =>
    rw [List.countP_append, List.countP_singleton, role]
    exact inductionHypothesis known
  | @refinement taken window instruction grown begun role inductionHypothesis =>
    obtain ⟨before, same, _, left⟩ := temporary_takeRefinement known
    have earlier := inductionHypothesis same
    rw [List.countP_append, List.countP_singleton, role]
    have one : (if (Role.refinement == Role.refinement) = true then 1 else 0) = 1 := rfl
    rw [one, Nat.succ_mul]
    rcases left with kept | ⟨_, result, more⟩
    · omega
    · have reads := most result
      omega
  | @operation taken window instruction grown operates admitted inductionHypothesis =>
    have more : bound + taken.countP (·.role == .refinement) * (bound - 1) ≤
        bound + (taken ++ [instruction]).countP (·.role == .refinement) * (bound - 1) := by
      rw [List.countP_append]
      exact Nat.add_le_add_left (Nat.mul_le_mul_right _ (Nat.le_add_right _ _)) _
    dsimp only at known
    cases result : instruction.result with
    | none =>
      rw [temporary_takeOperation_of_none operates result, Option.bind_eq_some_iff] at known
      obtain ⟨before, same, consumed⟩ := known
      obtain ⟨rfl, _⟩ := eq_of_consume consumed
      exact (Nat.sub_le _ _).trans ((inductionHypothesis same).trans more)
    | some value =>
      obtain ⟨type, made⟩ := temporary_takeOperation_of_some window scope operates result
      obtain ⟨rfl, _⟩ := eq_of_produce (made ▸ known)
      exact (most value).trans (Nat.le_add_right _ _)

theorem countP_refinement_le (instructions : List Instruction) :
    instructions.countP (·.role == .refinement) ≤ (instructions.flatMap (·.operands)).length := by
  induction instructions with
  | nil => exact Nat.zero_le _
  | cons instruction instructions inductionHypothesis =>
    rw [List.countP_cons, List.flatMap_cons, List.length_append]
    split
    · rename_i refines
      obtain ⟨_, source, _, operands, _⟩ :=
        Instruction.role_eq_refinement_iff.mp (beq_iff_eq.mp refines)
      rw [operands, List.length_singleton]
      omega
    · omega

/-- The reads that are counted do not exceed the square of the number of operands. -/
theorem readsLeft_le {method : Method} {limits : Limits} {block : Block}
    (present : block ∈ method.blocks) {before after : List Instruction}
    (split : block.instructions = before ++ taken ++ after)
    (grown : Grown (.ofMethod method limits) taken window)
    (known : window.temporary = some temporary) :
    temporary.readsLeft ≤ method.reads.length ^ 2 := by
  have most := grown.readsLeft_le (reads_le method) known
  have refinements := (countP_refinement_le taken).trans (length_operands_le present split)
  calc temporary.readsLeft
      ≤ method.reads.length +
          taken.countP (·.role == .refinement) * (method.reads.length - 1) := most
    _ ≤ method.reads.length + method.reads.length * (method.reads.length - 1) :=
        Nat.add_le_add_left (Nat.mul_le_mul_right _ refinements) _
    _ = method.reads.length ^ 2 := by
        cases method.reads.length with
        | zero => rfl
        | succ count => rw [Nat.add_sub_cancel]; ring

/-- Whether 32 bits hold every count of reads that a window inside a method makes. -/
def CountsFit (limits : Limits) (method : Method) : Prop :=
  ∀ block ∈ method.blocks, ∀ before taken after window temporary,
    block.instructions = before ++ taken ++ after →
    Grown (.ofMethod method limits) taken window →
    window.temporary = some temporary → temporary.readsLeft < 2 ^ 32

theorem countsFit_of_small {method : Method} (small : method.reads.length ^ 2 < 2 ^ 32)
    (limits : Limits) : CountsFit limits method := by
  intro block present before taken after window temporary split grown known
  exact Nat.lt_of_le_of_lt (readsLeft_le present split grown known) small

/-- In single assignment form the reads that are counted are different operands. -/
theorem countsFit_of_assigned {method : Method} (valid : method.defect? = none)
    (assigned : method.SingleAssignment) (few : method.reads.length < 2 ^ 32) (limits : Limits) :
    CountsFit limits method := by
  intro block present before taken after window temporary split grown known
  obtain ⟨earlier, later, _, arranged⟩ := exists_arranged_block valid assigned present
  have around : Arranged method (earlier.flatMap (·.instructions) ++ before ++ taken ++
      (after ++ later.flatMap (·.instructions))) := by
    simpa [split] using arranged
  have produced : temporary.value ∈ results (taken.filter (·.isOperation)) :=
    List.mem_of_getLast? (grown.temporary_eq known).1
  refine Nat.lt_of_le_of_lt ?_ few
  rw [← readsOf_of_temporary known, ← grown.left_eq around produced]
  calc left (Usage.ofMethod method).root taken temporary.value
        (after ++ later.flatMap (·.instructions))
      ≤ ((after ++ later.flatMap (·.instructions)).flatMap (·.operands)).length :=
        List.countP_le_length
    _ ≤ method.reads.length := by
        rw [Method.reads, ← (around.perm.flatMap_right _).length_eq]
        simp only [List.flatMap_append, List.length_append]
        omega

end Window

end Outlining
