import Outlining.Proofs.Bytecode.Assignment

namespace Outlining.Bytecode

variable {method : Method} {body past taken future : List Instruction}
  {instruction reader writer : Instruction} {value result source : Var}

/-- The instructions of a valid method in single assignment form, in an order in which values are
written before they are read. -/
structure Arranged (method : Method) (body : List Instruction) : Prop where
  valid : method.defect? = none
  assigned : method.SingleAssignment
  perm : body.Perm method.instructions
  ordered : Ordered body

theorem exists_arranged_block (valid : method.defect? = none) (assigned : method.SingleAssignment)
    {block : Block} (present : block ∈ method.blocks) :
    ∃ earlier later : List Block, (earlier ++ block :: later).Perm method.blocks ∧
      Arranged method (earlier.flatMap (·.instructions) ++
        (block.instructions ++ later.flatMap (·.instructions))) := by
  obtain ⟨blocks, perm, ordered⟩ := assigned.ordered
  obtain ⟨earlier, later, rfl⟩ := List.append_of_mem (perm.mem_iff.mpr present)
  have body : (earlier ++ block :: later).flatMap (·.instructions) =
      earlier.flatMap (·.instructions) ++
        (block.instructions ++ later.flatMap (·.instructions)) := by
    simp
  exact ⟨earlier, later, perm, valid, assigned, body ▸ perm.flatMap_right _, body ▸ ordered⟩

theorem mem_reads_of_ne_zero (some : (Usage.ofMethod method).reads value ≠ 0) :
    value ∈ method.reads := by
  rw [Usage.reads_ofMethod] at some
  split at some
  · exact List.count_pos_iff.mp (Nat.pos_of_ne_zero some)
  · exact absurd rfl some

theorem root_mem_reads_or (valid : method.defect? = none) (acyclic : Acyclic method) (value : Var) :
    (Usage.ofMethod method).root value = value ∨
      (Usage.ofMethod method).root value ∈ method.reads := by
  induction value using acyclic.induction with
  | fixed value still => exact .inl (root_of_parent_eq valid still)
  | refined value moves inductionHypothesis =>
    rw [← root_parent valid acyclic value]
    rcases inductionHypothesis with still | read
    · rw [still]
      rcases parent_eq_self_or method value with same | ⟨instruction, member, refines⟩
      · exact absurd same moves
      · exact .inr (List.mem_flatMap.mpr
          ⟨instruction, member, (operands_of_refinement? refines).1⟩)
    · exact .inr read

theorem root_mem_reads (valid : method.defect? = none) (acyclic : Acyclic method)
    (read : value ∈ method.reads) : (Usage.ofMethod method).root value ∈ method.reads := by
  rcases root_mem_reads_or valid acyclic value with fixed | other
  · rwa [fixed]
  · exact other

namespace Arranged

theorem mem_reads (arranged : Arranged method body) (member : reader ∈ body)
    (read : value ∈ reader.operands) : value ∈ method.reads :=
  List.mem_flatMap.mpr ⟨reader, arranged.perm.mem_iff.mp member, read⟩

theorem root_mem_reads (arranged : Arranged method body) (read : value ∈ method.reads) :
    (Usage.ofMethod method).root value ∈ method.reads :=
  Bytecode.root_mem_reads arranged.valid arranged.assigned.acyclic read

theorem count_results (arranged : Arranged method body) (read : value ∈ method.reads) :
    (results body).count value = 1 := by
  obtain ⟨reader, member, reads⟩ := List.mem_flatMap.mp read
  exact arranged.ordered.count_eq_one (arranged.perm.mem_iff.mpr member) reads

theorem notMem_of_mem (arranged : Arranged method (past ++ future)) (read : value ∈ method.reads)
    (written : value ∈ results past) : value ∉ results future := by
  intro again
  have once := arranged.count_results read
  rw [results_append, List.count_append] at once
  have first := List.count_pos_iff.mpr written
  have second := List.count_pos_iff.mpr again
  omega

/-- The value that an instruction writes is not written before, if it is read. -/
theorem notMem_past (arranged : Arranged method (past ++ instruction :: future))
    (read : value ∈ method.reads) (writes : instruction.result = some value) :
    value ∉ results past := fun before =>
  arranged.notMem_of_mem read before (by rw [results_cons_of_some writes]; exact List.mem_cons_self)

theorem mem_results (arranged : Arranged method (past ++ future)) (member : reader ∈ past)
    (read : value ∈ reader.operands) : value ∈ results past :=
  (arranged.ordered.of_append member read).1

theorem mem_past (arranged : Arranged method (past ++ instruction :: future))
    (read : value ∈ instruction.operands) : value ∈ results past :=
  (arranged.ordered past instruction future rfl value read).1

theorem root_mem_results (arranged : Arranged method (past ++ future))
    (read : value ∈ method.reads) (written : value ∈ results past) :
    (Usage.ofMethod method).root value ∈ results past := by
  have acyclic := arranged.assigned.acyclic
  induction value using acyclic.induction with
  | fixed value still => rwa [root_of_parent_eq arranged.valid still]
  | refined value moves inductionHypothesis =>
    rw [← root_parent arranged.valid acyclic value]
    rcases parent_eq_self_or method value with fixed | ⟨instruction, member, refines⟩
    · exact absurd fixed moves
    · obtain ⟨reads, writes⟩ := operands_of_refinement? refines
      obtain ⟨writer, before, writesToo⟩ := mem_results_iff.mp written
      have inside := arranged.perm.mem_iff.mp (List.mem_append_left future before)
      obtain rfl := arranged.assigned.eq_writer read inside writesToo member writes
      exact inductionHypothesis (List.mem_flatMap.mpr ⟨writer, member, reads⟩)
        (arranged.mem_results before reads)

theorem root_eq_self (arranged : Arranged method body) (read : value ∈ method.reads)
    (member : instruction ∈ body) (writes : instruction.result = some value)
    (plain : instruction.refinement? = none) : (Usage.ofMethod method).root value = value :=
  root_of_parent_eq arranged.valid
    (arranged.assigned.parent_eq_self read (arranged.perm.mem_iff.mp member) writes plain)

theorem root_eq_root (arranged : Arranged method body) (read : result ∈ method.reads)
    (member : instruction ∈ body) (refines : instruction.refinement? = some (result, source)) :
    (Usage.ofMethod method).root result = (Usage.ofMethod method).root source := by
  rw [← root_parent arranged.valid arranged.assigned.acyclic,
    arranged.assigned.parent_eq_source read (arranged.perm.mem_iff.mp member) refines]

theorem count_future (arranged : Arranged method (past ++ instruction :: future))
    (writes : instruction.result = some value) :
    (future.flatMap (·.operands)).count value = (Usage.ofMethod method).reads value := by
  have inside : value < method.types.length := by
    have member : instruction ∈ past ++ instruction :: future := by simp
    have named : value ∈ instruction.values := List.mem_append_right _ (by simp [writes])
    exact lt_of_valid arranged.valid (arranged.perm.mem_iff.mp member) named
  have early : ∀ reader ∈ past ++ [instruction], value ∉ reader.operands := by
    intro reader member read
    have whole : reader ∈ past ++ instruction :: future := by
      rcases List.mem_append.mp member with before | here
      · exact List.mem_append_left _ before
      · obtain rfl := List.mem_singleton.mp here
        exact List.mem_append_right _ List.mem_cons_self
    refine arranged.notMem_past (arranged.mem_reads whole read) writes ?_
    rcases List.mem_append.mp member with before | here
    · exact arranged.mem_results before read
    · obtain rfl := List.mem_singleton.mp here
      exact arranged.mem_past read
  have none : ((past ++ [instruction]).flatMap (·.operands)).count value = 0 := by
    rw [List.count_eq_zero, List.mem_flatMap]
    rintro ⟨reader, member, read⟩
    exact early reader member read
  have all := (arranged.perm.flatMap_right (·.operands)).count_eq value
  rw [← List.singleton_append, ← List.append_assoc, List.flatMap_append, List.count_append, none,
    Nat.zero_add] at all
  rw [Usage.reads_ofMethod, if_pos inside, all, Method.reads]

end Arranged

/-- The reads after some instructions of their results that stand for `value`. -/
def left (root : Var → Var) (taken : List Instruction) (value : Var)
    (future : List Instruction) : Nat :=
  (future.flatMap (·.operands)).countP
    fun operand => decide (operand ∈ results taken ∧ root operand = value)

theorem left_cons (root : Var → Var) (taken : List Instruction) (value : Var)
    (instruction : Instruction) (future : List Instruction) :
    left root taken value (instruction :: future) =
      instruction.operands.countP
        (fun operand => decide (operand ∈ results taken ∧ root operand = value)) +
      left root taken value future := by
  rw [left, List.flatMap_cons, List.countP_append]
  rfl

theorem left_pos {root : Var → Var} (member : reader ∈ future) (read : value ∈ reader.operands)
    (written : value ∈ results taken) : 0 < left root taken (root value) future :=
  List.countP_pos_iff.mpr
    ⟨value, List.mem_flatMap.mpr ⟨reader, member, read⟩, by simp [written]⟩

theorem left_append_of_none (root : Var → Var) (silent : instruction.result = none) :
    left root (taken ++ [instruction]) value future = left root taken value future := by
  have same : results (taken ++ [instruction]) = results taken := by
    simp [results, silent]
  rw [left, same]
  rfl

private theorem countP_more (root : Var → Var) (written operands : List Var)
    (value result : Var) :
    operands.countP (fun operand => decide (operand ∈ written ++ [result] ∧ root operand = value)) =
      operands.countP (fun operand => decide (operand ∈ written ∧ root operand = value)) +
        if result ∉ written ∧ root result = value then operands.count result else 0 := by
  induction operands with
  | nil => simp
  | cons operand operands inductionHypothesis =>
    rw [List.countP_cons, List.countP_cons, List.count_cons, inductionHypothesis]
    by_cases here : operand = result
    · subst here
      by_cases known : operand ∈ written
      · simp [known]
      · by_cases stands : root operand = value
        · simp [known, stands]
          omega
        · simp [stands]
    · simp [here]
      omega

theorem Arranged.left_append (arranged : Arranged method (past ++ taken ++ instruction :: future))
    (writes : instruction.result = some result) (value : Var) :
    left (Usage.ofMethod method).root (taken ++ [instruction]) value future =
      left (Usage.ofMethod method).root taken value future +
        if (Usage.ofMethod method).root result = value then (Usage.ofMethod method).reads result
        else 0 := by
  have more : results (taken ++ [instruction]) = results taken ++ [result] := by
    rw [results_append, results_cons_of_some writes]
    rfl
  rw [left, more, countP_more, ← arranged.count_future writes]
  by_cases known : result ∈ results taken
  · have unread : (future.flatMap (·.operands)).count result = 0 := by
      rw [List.count_eq_zero, List.mem_flatMap]
      rintro ⟨reader, member, read⟩
      have whole : reader ∈ past ++ taken ++ instruction :: future :=
        List.mem_append_right _ (List.mem_cons_of_mem _ member)
      refine arranged.notMem_past (arranged.mem_reads whole read) writes ?_
      rw [results_append]
      exact List.mem_append_right _ known
    rw [unread]
    simp [left]
  · simp [known, left]

end Outlining.Bytecode
