import Mathlib.Data.List.TakeWhile
import Outlining.Proofs.Pipeline.Coverage

namespace Outlining.Pipeline

open Outlining.Bytecode Outlining.Template Outlining.Window

variable {limits : Limits} {method : Method} {candidate : Candidate} {label : Label} {place : Nat}
  {instruction : Instruction} {value : Var}

def operationsOf (method : Method) (candidate : Candidate) : List Instruction :=
  (windowOf method candidate).filter (·.isOperation)

/-- The literals and refinements right after a window. -/
def trail (method : Method) (candidate : Candidate) : List Instruction :=
  match method.blocks[candidate.block]? with
  | some block => (block.instructions.drop candidate.stop).takeWhile (·.isTransparent)
  | none => []

theorem isTransparent_of_mem_trail (member : instruction ∈ trail method candidate) :
    instruction.isTransparent = true := by
  unfold trail at member
  split at member
  · exact List.mem_takeWhile_imp member
  · cases member

/-- What stands behind a window as far as growth took it is in its trail. -/
private theorem mem_trail_of_split {block : Block} {before taken after : List Instruction}
    {window : Window} (there : method.blocks[candidate.block]? = some block)
    (split : block.instructions = before ++ taken ++ after)
    (closed : Closed (.ofMethod method limits) block.label before.length taken window candidate)
    (trails : instruction ∈ trailing taken) : instruction ∈ trail method candidate := by
  unfold trail
  rw [there]
  dsimp only
  rw [closed.drop_stop split, List.takeWhile_append_of_pos fun _ => transparent_of_mem_trailing]
  exact List.mem_append_left _ trails

private theorem mem_of_getElem?_outside {before inside after : List Instruction}
    (there : (before ++ (inside ++ after))[place]? = some instruction)
    (outside : ¬ (before.length ≤ place ∧ place < before.length + inside.length)) :
    instruction ∈ before ++ after := by
  rw [List.mem_append]
  by_cases front : place < before.length
  · rw [List.getElem?_append_left front] at there
    exact .inl (List.mem_of_getElem? there)
  · rw [List.getElem?_append_right (by omega), List.getElem?_append_right (by omega)] at there
    exact .inr (List.mem_of_getElem? there)

section

variable (valid : method.defect? = none) (assigned : method.SingleAssignment)
  (listed : candidate ∈ found limits method)
include valid assigned listed

theorem exists_arranged : ∃ past taken future window label start,
    Closed (.ofMethod method limits) label start taken window candidate ∧
      windowOf method candidate = trim taken ∧ Arranged method (past ++ taken ++ future) ∧
      (∀ label place instruction, method.instruction? label place = some instruction →
        ¬ candidate.Covers label place → instruction ∈ past ++ (trailing taken ++ future)) ∧
      ∀ instruction ∈ trailing taken, instruction ∈ trail method candidate := by
  obtain ⟨block, present, there, before, taken, after, window, split, _, closed, covered⟩ :=
    windowOf_eq (labelled_of_valid valid) listed
  obtain ⟨earlier, later, perm, arranged⟩ := exists_arranged_block valid assigned present
  refine ⟨earlier.flatMap (·.instructions) ++ before, taken,
    after ++ later.flatMap (·.instructions), window, _, _, closed, covered, ?_, ?_, ?_⟩
  · simpa [split] using arranged
  · intro label place instruction found outside
    obtain ⟨other, otherThere, found⟩ := instruction?_eq_some_iff.mp found
    have among := perm.mem_iff.mpr (List.mem_of_getElem? otherThere)
    have member := List.mem_of_getElem? found
    simp only [List.mem_append, List.mem_cons] at among
    rcases among with early | rfl | late
    · simp only [List.mem_append, List.mem_flatMap]
      exact .inl (.inl ⟨other, early, member⟩)
    · have here : candidate.block = label :=
        (label_eq valid there).symm.trans (label_eq valid otherThere)
      have start : candidate.start = before.length := by rw [closed.same]
      have stop : candidate.stop = before.length + (trim taken).length := by rw [closed.same]
      rw [split, ← trim_append_trailing taken, List.append_assoc, List.append_assoc] at found
      have around := mem_of_getElem?_outside found fun inside =>
        outside ⟨here, by omega, by omega⟩
      simp only [List.mem_append] at around ⊢
      rcases around with front | trails | follows
      · exact .inl (.inr front)
      · exact .inr (.inl trails)
      · exact .inr (.inr (.inl follows))
    · simp only [List.mem_append, List.mem_flatMap]
      exact .inr (.inr (.inr ⟨other, late, member⟩))
  · intro instruction trails
    exact mem_trail_of_split there split closed trails

/-- Outside of a window, what stands for one of its results is the result produced last. -/
theorem lastResult_of_outside (found : method.instruction? label place = some instruction)
    (outside : ¬ candidate.Covers label place) (read : value ∈ instruction.operands)
    (stands : (Usage.ofMethod method).root value ∈ results (operationsOf method candidate)) :
    lastResult (operationsOf method candidate) = some ((Usage.ofMethod method).root value) := by
  obtain ⟨past, taken, future, window, _, _, closed, covered, arranged, around, _⟩ :=
    exists_arranged valid assigned listed
  have grown := closed.grown
  rw [← trim_append_trailing taken] at grown arranged
  obtain ⟨before, grown⟩ := grown.init
  rw [operationsOf, covered] at stands ⊢
  rw [← List.append_assoc, List.append_assoc] at arranged
  exact grown.lastResult_of_read arranged stands (around label place instruction found outside)
    read rfl

/-- Outside of a window that has nothing left to be read, what stands for one of its results is
read right after the window. -/
theorem mem_trail_of_outside (nothing : candidate.result = none)
    (found : method.instruction? label place = some instruction)
    (outside : ¬ candidate.Covers label place) (read : value ∈ instruction.operands)
    (stands : (Usage.ofMethod method).root value ∈ results (operationsOf method candidate)) :
    instruction ∈ trail method candidate := by
  obtain ⟨past, taken, future, window, _, _, closed, covered, arranged, around, trails⟩ :=
    exists_arranged valid assigned listed
  rw [operationsOf, covered, filter_isOperation_trim] at stands
  rw [closed.same] at nothing
  have member := around label place instruction found outside
  simp only [List.mem_append] at member
  rcases member with early | behind | late
  · have known := closed.grown.temporary_of_read arranged stands (List.mem_append_left _ early) read rfl
    exact absurd (known.symm.trans nothing) (by simp)
  · exact trails instruction behind
  · have known := closed.grown.temporary_of_read arranged stands (List.mem_append_right _ late) read rfl
    exact absurd (known.symm.trans nothing) (by simp)

/-- A value that is read is written either inside or outside of a window. -/
theorem notMem_of_outside (found : method.instruction? label place = some instruction)
    (outside : ¬ candidate.Covers label place) (read : value ∈ method.reads)
    (writes : instruction.result = some value) : value ∉ results (windowOf method candidate) := by
  obtain ⟨past, taken, future, window, _, _, closed, covered, arranged, around, _⟩ :=
    exists_arranged valid assigned listed
  intro inside
  have once := arranged.count_results read
  have elsewhere := mem_results_iff.mpr
    ⟨instruction, around label place instruction found outside, writes⟩
  rw [covered] at inside
  rw [← trim_append_trailing taken] at once
  simp only [results_append, List.count_append] at once
  simp only [results_append, ← List.count_pos_iff, List.count_append] at elsewhere inside
  omega

/-- Every value passed stands for what an operation of the window reads, and for no result of the
window. -/
theorem of_mem_arguments (member : value ∈ candidate.arguments) :
    (∃ place reader, candidate.Covers candidate.block place ∧
      method.instruction? candidate.block place = some reader ∧ reader.isOperation = true ∧
      ∃ operand ∈ reader.operands, (Usage.ofMethod method).root operand = value) ∧
    value ∉ results (operationsOf method candidate) := by
  obtain ⟨past, taken, future, window, _, _, closed, covered, arranged, _⟩ :=
    exists_arranged valid assigned listed
  rw [closed.same] at member
  obtain ⟨argument, passed, rfl⟩ := List.mem_map.mp member
  have absent := closed.grown.notMem_results_of_mem_arguments arranged passed
  obtain ⟨reader, present, operand, reads, stands⟩ := closed.grown.exists_operand passed
  rw [← filter_isOperation_trim, ← covered] at absent present
  obtain ⟨inside, operates⟩ := List.mem_filter.mp present
  obtain ⟨place, covers, found⟩ := mem_windowOf_iff.mp inside
  exact ⟨⟨place, reader, covers, found, operates, operand, reads, stands.symm⟩, absent⟩

/-- What an operation of a window reads stands for a value passed or for a result of the window. -/
theorem root_mem_of_operation (member : instruction ∈ operationsOf method candidate)
    (read : value ∈ instruction.operands) :
    (Usage.ofMethod method).root value ∈ candidate.arguments ∨
      (Usage.ofMethod method).root value ∈ results (operationsOf method candidate) := by
  obtain ⟨past, taken, future, window, _, _, closed, covered, _, _⟩ :=
    exists_arranged valid assigned listed
  obtain ⟨rows, wired⟩ := closed.grown.wired closed.bare
  rw [operationsOf, covered, filter_isOperation_trim, ← wired.operations] at member ⊢
  obtain ⟨row, present, rfl⟩ := List.mem_map.mp member
  obtain ⟨before, after, split⟩ := List.append_of_mem present
  obtain ⟨order, reordered, reads⟩ := (wired.row before row after split).reads
  have asked : some ((Usage.ofMethod method).root value) ∈
      order.map fun operand => some ((Usage.ofMethod method).root operand) :=
    List.mem_map_of_mem ((reordered.mem_iff value).mpr read)
  have slots := reads.symm ▸ asked
  obtain ⟨slot, _, resolved⟩ := List.mem_map.mp slots
  cases slot with
  | argument index =>
    refine .inl ?_
    rw [closed.same]
    exact List.mem_of_getElem? resolved
  | temporary =>
    refine .inr ?_
    rw [split, List.map_append, results_append]
    exact List.mem_append_left _ (List.mem_of_getLast? resolved)

omit valid assigned in
/-- A window returns the result produced last, unless it returns nothing. -/
theorem result_eq_lastResult (labelled : Labelled method)
    (value : candidate.template.returnType.isVoid = false) :
    candidate.result = lastResult (operationsOf method candidate) := by
  obtain ⟨_, _, _, _, taken, _, window, _, _, closed, covered⟩ := windowOf_eq labelled listed
  rw [operationsOf, covered, filter_isOperation_trim]
  exact closed.result_eq value

omit valid assigned in
theorem role_of_mem_windowOf (labelled : Labelled method)
    (inside : instruction ∈ windowOf method candidate) :
    instruction.isOperation = true ∨ instruction.role = .literal ∨
      instruction.role = .refinement := by
  obtain ⟨_, _, _, _, taken, _, window, _, _, closed, covered⟩ := windowOf_eq labelled listed
  rw [covered] at inside
  exact (closed.grown.operates_or_transparent (mem_of_mem_trim inside)).imp_right Instruction.isTransparent_cases

end

end Outlining.Pipeline
