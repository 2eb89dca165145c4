import Mathlib.Algebra.Order.BigOperators.Group.List
import Mathlib.Algebra.Order.Ring.Nat
import Outlining.Proofs.Window.Wiring

namespace Outlining

open Outlining.Bytecode Outlining.Template Outlining.Window

/-- The operation that an instruction does, if it does one. -/
def Bytecode.Instruction.operation (instruction : Instruction) : Operation :=
  (Operation.ofInstruction? instruction).getD default

namespace Window

variable {scope : Scope} {taken kept : List Instruction} {instruction : Instruction}
  {window : Window} {rows : List (Instruction × List Slot)} {label : Label} {start : Nat}
  {candidate : Candidate}

theorem ofInstruction?_eq (operates : instruction.isOperation = true) :
    Operation.ofInstruction? instruction = some instruction.operation := by
  obtain ⟨operation, same, _⟩ := Instruction.exists_operation operates
  rw [Instruction.operation, same]
  rfl

theorem hasResult_operation (operates : instruction.isOperation = true) :
    instruction.operation.hasResult = instruction.result.isSome := by
  obtain ⟨operation, same, _, result⟩ := Instruction.exists_operation operates
  rw [Instruction.operation, same]
  exact result

theorem length_operands (operates : instruction.isOperation = true)
    (bare : instruction.role = .allocation → instruction.operands = []) :
    instruction.operands.length = instruction.operation.arity := by
  obtain ⟨operation, same, counted, _⟩ := Instruction.exists_operation operates
  rw [Instruction.operation, same, Option.getD_some]
  rcases counted with role | counted
  · obtain ⟨cls, _, opcode, _⟩ := Instruction.role_eq_allocation_iff.mp role
    rw [Operation.ofInstruction?, opcode] at same
    cases same
    rw [bare role]
    rfl
  · exact counted

theorem arity_operation_le (operates : instruction.isOperation = true) :
    instruction.operation.arity ≤ instruction.operands.length := by
  by_cases bare : instruction.role = .allocation → instruction.operands = []
  · exact Nat.le_of_eq (length_operands operates bare).symm
  · obtain ⟨role, _⟩ := Classical.not_imp.mp bare
    obtain ⟨cls, _, opcode, _⟩ := Instruction.role_eq_allocation_iff.mp role
    simp [Instruction.operation, Operation.ofInstruction?, opcode, Operation.arity]

theorem filterMap_ofInstruction? {instructions : List Instruction}
    (operate : ∀ instruction ∈ instructions, instruction.isOperation = true) :
    instructions.filterMap Operation.ofInstruction? = instructions.map (·.operation) := by
  induction instructions with
  | nil => rfl
  | cons instruction rest inductionHypothesis =>
    rw [List.filterMap_cons_some (ofInstruction?_eq (operate instruction (by simp))),
      inductionHypothesis fun other member => operate other (List.mem_cons_of_mem _ member)]
    rfl

theorem operations_template (window : Window) (taken : List Instruction) :
    (window.template (trim taken)).operations =
      (taken.filter (·.isOperation)).map (·.operation) := by
  rw [template, filter_isOperation_trim]
  exact filterMap_ofInstruction? fun instruction member => (List.mem_filter.mp member).2

private theorem bare_of_sum {instructions : List Instruction}
    (operate : ∀ instruction ∈ instructions, instruction.isOperation = true)
    (same : (instructions.map (·.operands.length)).sum =
      (instructions.map (·.operation.arity)).sum) : Bare instructions := by
  induction instructions with
  | nil => simp [Bare]
  | cons first rest inductionHypothesis =>
    have operates := operate first (by simp)
    have others : ∀ instruction ∈ rest, instruction.isOperation = true :=
      fun instruction member => operate instruction (List.mem_cons_of_mem _ member)
    have least : (rest.map (·.operation.arity)).sum ≤ (rest.map (·.operands.length)).sum :=
      List.sum_le_sum fun instruction member => arity_operation_le (others instruction member)
    have bound := arity_operation_le operates
    simp only [List.map_cons, List.sum_cons] at same
    intro instruction member role
    rcases List.mem_cons.mp member with rfl | member
    · obtain ⟨cls, _, opcode, _⟩ := Instruction.role_eq_allocation_iff.mp role
      have none : instruction.operation.arity = 0 := by
        simp [Instruction.operation, Operation.ofInstruction?, opcode, Operation.arity]
      exact List.length_eq_zero_iff.mp (by omega)
    · exact inductionHypothesis others (by omega) instruction member role

/-- A template that covers its operands leaves no operand to an allocation. -/
theorem Grown.bare (grown : Grown scope taken window)
    (covers : (window.template (trim taken)).coversOperands = true) : Bare taken := by
  have operate : ∀ instruction ∈ taken.filter (·.isOperation), instruction.isOperation = true :=
    fun instruction member => (List.mem_filter.mp member).2
  have counted : window.slots.length = (window.template (trim taken)).arity :=
    beq_iff_eq.mp covers
  rw [arity_eq_sum, operations_template, List.map_map, grown.length_slots] at counted
  have bare := bare_of_sum operate counted
  intro instruction member role
  refine bare instruction (List.mem_filter.mpr ⟨member, ?_⟩) role
  simp [Instruction.isOperation, role, Role.isOperation]

/-- Where allocations have no operands, a template covers its operands. -/
theorem Grown.covers (grown : Grown scope taken window) (bare : Bare taken) :
    (window.template (trim taken)).coversOperands = true := by
  refine beq_iff_eq.mpr ?_
  change window.slots.length = _
  rw [arity_eq_sum, operations_template, List.map_map, grown.length_slots]
  refine congrArg List.sum (List.map_congr_left fun instruction member => ?_)
  obtain ⟨present, operates⟩ := List.mem_filter.mp member
  exact length_operands operates (bare instruction present)

theorem length_row {arguments : List Argument} {produced : Option Var} {slots : List Slot}
    (row : Row scope arguments produced instruction slots) :
    slots.length = instruction.operands.length := by
  obtain ⟨order, reordered, reads⟩ := row.reads
  have lengths := congrArg List.length reads
  rw [List.length_map, List.length_map, reordered.length_eq] at lengths
  exact lengths

private theorem deal_rows
    (counted : ∀ row ∈ rows, row.2.length = row.1.operation.arity) :
    deal (rows.map fun row => row.1.operation) (rows.flatMap Prod.snd) =
      rows.map fun row => (row.1.operation, row.2) := by
  induction rows with
  | nil => rfl
  | cons row rows inductionHypothesis =>
    have first := counted row (by simp)
    simp only [List.map_cons, List.flatMap_cons, deal]
    rw [← first, List.take_left, List.drop_left,
      inductionHypothesis fun other member => counted other (List.mem_cons_of_mem _ member)]

theorem Wired.of_mem (wired : Wired scope taken window rows) {row : Instruction × List Slot}
    (member : row ∈ rows) :
    ∃ produced, Row scope window.arguments produced row.1 row.2 := by
  obtain ⟨before, after, split⟩ := List.append_of_mem member
  exact ⟨_, wired.row before row after split⟩

theorem Wired.mem_taken (wired : Wired scope taken window rows) {row : Instruction × List Slot}
    (member : row ∈ rows) : row.1 ∈ taken := by
  have image := List.mem_map_of_mem (f := Prod.fst) member
  rw [wired.operations] at image
  exact (List.mem_filter.mp image).1

theorem Wired.wiring (wired : Wired scope taken window rows) (bare : Bare taken) :
    (window.template (trim taken)).wiring = rows.map fun row => (row.1.operation, row.2) := by
  have counted : ∀ row ∈ rows, row.2.length = row.1.operation.arity := by
    intro row member
    obtain ⟨produced, known⟩ := wired.of_mem member
    rw [length_row known, length_operands known.operates (bare _ (wired.mem_taken member))]
  rw [Template.wiring, operations_template, ← wired.operations, List.map_map]
  change deal _ window.slots = _
  rw [← wired.slots]
  exact deal_rows counted

theorem Grown.operations_eq (grown : Grown scope taken window) :
    window.operations = (taken.filter (·.isOperation)).length := by
  induction grown with
  | start => rfl
  | literal grown begun role inductionHypothesis =>
    rw [filter_isOperation_append_literal role, ← inductionHypothesis]
  | refinement grown begun role inductionHypothesis =>
    rw [filter_isOperation_append_refinement role, ← inductionHypothesis]
    exact operations_takeRefinement ..
  | operation grown operates admitted inductionHypothesis =>
    rw [filter_isOperation_append_operation operates, List.length_append, ← inductionHypothesis]
    exact operations_takeOperation ..

theorem Grown.operations_pos (grown : Grown scope taken window) (begun : taken ≠ []) :
    0 < window.operations := by
  induction grown with
  | start => exact absurd rfl begun
  | literal _ earlier _ inductionHypothesis => exact inductionHypothesis earlier
  | refinement _ earlier _ inductionHypothesis =>
    dsimp only
    rw [operations_takeRefinement]
    exact inductionHypothesis earlier
  | operation =>
    dsimp only
    rw [operations_takeOperation]
    exact Nat.succ_pos _

/-- A window takes what is transparent, and operations that a window before it admitted. -/
theorem Grown.mem_cases (grown : Grown scope taken window) (member : instruction ∈ taken) :
    (∃ prior : Window, prior.admits scope instruction = true) ∨
      instruction.isTransparent = true := by
  induction grown with
  | start => cases member
  | literal _ _ role inductionHypothesis | refinement _ _ role inductionHypothesis =>
    rcases List.mem_append.mp member with earlier | last
    · exact inductionHypothesis earlier
    · obtain rfl := List.mem_singleton.mp last
      exact .inr (by simp [Instruction.isTransparent, role, Role.isTransparent])
  | @operation _ prior _ _ _ admitted inductionHypothesis =>
    rcases List.mem_append.mp member with earlier | last
    · exact inductionHypothesis earlier
    · obtain rfl := List.mem_singleton.mp last
      exact .inl ⟨prior, admitted⟩

theorem Grown.operates_or_transparent (grown : Grown scope taken window)
    (member : instruction ∈ taken) :
    instruction.isOperation = true ∨ instruction.isTransparent = true :=
  (grown.mem_cases member).imp_left fun ⟨_, admitted⟩ => (admits_iff.mp admitted).operates

theorem exists_last (grown : Grown scope taken window) (some : 0 < window.operations) :
    ∃ last, (trim taken).getLast? = .some last ∧ last.isOperation = true := by
  rw [grown.operations_eq, ← filter_isOperation_trim] at some
  have nonempty : trim taken ≠ [] := by
    intro none
    rw [none] at some
    cases some
  have last := List.getLast?_eq_some_getLast nonempty
  refine ⟨_, last, ?_⟩
  rcases grown.operates_or_transparent (mem_of_mem_trim (List.getLast_mem nonempty)) with operates | transparent
  · exact operates
  · rw [getLast?_trim last] at transparent
    cases transparent

/-- What is known of a candidate: the window it was closed over, which took the instructions
`taken` of a block from `start` on. -/
structure Closed (scope : Scope) (label : Label) (start : Nat) (taken : List Instruction)
    (window : Window) (candidate : Candidate) : Prop where
  grown : Grown scope taken window
  settled : window.pending = none
  large : scope.limits.minSize ≤ window.operations
  bare : Bare taken
  same : candidate = {
    block := label
    start := start
    stop := start + (trim taken).length
    template := window.template (trim taken)
    arguments := window.arguments.map (·.value)
    registers := scope.registers window.arguments
    result := window.temporaryValue
    operations := window.operations }

theorem Closed.of_candidate (grown : Grown scope taken window) (settled : window.pending = none)
    (large : scope.limits.minSize ≤ window.operations)
    (closed : Window.candidate scope label start window taken = .ok candidate) :
    Closed scope label start taken window candidate := by
  obtain ⟨_, covers, same⟩ := candidate_eq_ok_iff.mp closed
  exact ⟨grown, settled, large, grown.bare covers, same⟩

namespace Closed

theorem arguments_eq (closed : Closed scope label start taken window candidate) :
    candidate.arguments = window.arguments.map (·.value) := by
  rw [closed.same]

theorem argumentTypes_eq (closed : Closed scope label start taken window candidate) :
    candidate.template.argumentTypes = window.arguments.map (·.type) := by
  rw [closed.same]
  rfl

theorem slots_eq (closed : Closed scope label start taken window candidate) :
    candidate.template.slots = window.slots := by
  rw [closed.same]
  rfl

theorem temporaryValue_eq (closed : Closed scope label start taken window candidate) :
    candidate.result = window.temporaryValue := by
  rw [closed.same]

end Closed

/-- A candidate returns the result produced last, unless it returns nothing. -/
theorem Closed.result_eq (closed : Closed scope label start taken window candidate)
    (value : candidate.template.returnType.isVoid = false) :
    candidate.result = lastResult (taken.filter (·.isOperation)) := by
  rw [closed.same] at value ⊢
  cases known : window.temporary with
  | none => simp [Window.template, known, Descriptor.void, Descriptor.isVoid] at value
  | some temporary =>
    rw [(closed.grown.temporary_eq known).1]
    simp [temporaryValue, known]

/-- A candidate of a method covers the first part of what its window took from a block. -/
theorem closed_of_mem_scan {method : Method} {limits : Limits}
    (member : .ok candidate ∈ method.scan limits) :
    ∃ block ∈ method.blocks, ∃ before taken after window,
      block.instructions = before ++ taken ++ after ∧ taken ≠ [] ∧
      Closed (.ofMethod method limits) block.label before.length taken window candidate := by
  obtain ⟨block, present, before, taken, after, window, split, grown, begun, settled, large, same⟩ :=
    of_mem_scan member
  exact ⟨block, present, before, taken, after, window, split, begun,
    .of_candidate grown settled large same.symm⟩

/-- Where allocations have no operands, a scan breaks no assertion. -/
theorem exists_candidate_of_mem_scan {method : Method} {limits : Limits} {found : Found}
    (bare : Bare method.instructions) (member : found ∈ method.scan limits) :
    ∃ candidate, found = .ok candidate := by
  obtain ⟨block, present, before, taken, after, window, split, grown, _, _, _, rfl⟩ :=
    of_mem_scan member
  have inside : Bare taken := by
    intro instruction present'
    refine bare instruction (List.mem_flatMap.mpr ⟨block, present, ?_⟩)
    simp [split, present']
  exact ⟨_, candidate_eq_ok_iff.mpr ⟨grown.registers_le inside, grown.covers inside, rfl⟩⟩

theorem drop_take_trim {before after : List Instruction} :
    ((before ++ taken ++ after).drop before.length).take (trim taken).length = trim taken := by
  rw [split_trim, List.append_assoc, List.drop_left, List.take_left]

theorem Closed.drop_stop {block : Block} {before after : List Instruction}
    (split : block.instructions = before ++ taken ++ after)
    (closed : Closed scope block.label before.length taken window candidate) :
    block.instructions.drop candidate.stop = trailing taken ++ after := by
  have stop : candidate.stop = (before ++ trim taken).length := by
    rw [closed.same, List.length_append]
  rw [split, split_trim, stop, List.drop_left]

end Window

end Outlining
