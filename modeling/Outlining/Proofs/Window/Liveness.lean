import Outlining.Proofs.Bytecode.Arrangement
import Outlining.Proofs.Window.Candidate

/-! The reads that a window counts for its temporary are exactly the reads to come of the values
that stand for it, and no other value that the window produced is ever read again. So what is read
of a window from outside is the result produced last. -/
namespace Outlining.Window

open Outlining.Bytecode

variable {method : Method} {limits : Limits} {past taken future : List Instruction}
  {instruction reader : Instruction} {window : Window} {value result : Var}

/-- The reads left of a value: those of the temporary, and none of another value. -/
def readsOf (window : Window) (value : Var) : Nat :=
  match window.temporary with
  | some temporary => if temporary.value = value then temporary.readsLeft else 0
  | none => 0

theorem readsOf_of_temporary {temporary : Temporary} (known : window.temporary = some temporary) :
    window.readsOf temporary.value = temporary.readsLeft := by
  simp [readsOf, known]

theorem readsOf_eq_zero (other : window.temporaryValue ≠ some value) : window.readsOf value = 0 := by
  unfold readsOf
  unfold temporaryValue at other
  cases known : window.temporary with
  | none => rfl
  | some temporary =>
    rw [known] at other
    exact if_neg fun same => other (congrArg some same)

theorem temporaryReads_eq {scope : Scope} (known : window.temporaryValue = some value)
    (instruction : Instruction) :
    window.temporaryReads scope instruction =
      instruction.operands.countP fun operand => decide (scope.usage.root operand = value) := by
  rw [temporaryReads]
  refine List.countP_congr fun operand _ => ?_
  simp [readsTemporary, known]

theorem readsOf_consume {after : Window} {reads : Nat}
    (consumed : after.temporary = window.temporary.bind (·.consume reads)) (value : Var) :
    after.readsOf value = window.readsOf value - reads := by
  unfold readsOf
  cases known : window.temporary with
  | none => simp [consumed, known]
  | some temporary =>
    rw [known, Option.bind_some, Temporary.consume] at consumed
    by_cases same : temporary.value = value
    · split at consumed
      · rename_i all
        simp [consumed, same, Nat.sub_eq_zero_of_le all]
      · simp [consumed, same]
    · split at consumed <;> simp [consumed, same]

theorem readsOf_produce {after : Window} {scope : Scope} {type : Descriptor}
    (produced : after.temporary = scope.produce result type) (value : Var) :
    after.readsOf value = if result = value then scope.usage.reads value else 0 := by
  unfold readsOf
  rw [produced, Scope.produce]
  split
  · rename_i temporary made
    split at made
    · cases made
      by_cases same : result = value
      · rw [if_pos same, if_pos same, same]
      · rw [if_neg same, if_neg same]
    · cases made
  · rename_i none
    split at none
    · cases none
    · rename_i unread
      split
      · rename_i same
        simpa [Usage.isRead, same, eq_comm] using unread
      · rfl

private theorem readsOf_of_count {after : Window} {temporary : Temporary} {count : Nat}
    (counted : after.temporary =
      if count = 0 then none else some { temporary with readsLeft := count }) (value : Var) :
    after.readsOf value = if temporary.value = value then count else 0 := by
  unfold readsOf
  by_cases all : count = 0
  · simp [counted, all]
  · simp [counted, all]

theorem readsOf_takeRefinement {scope : Scope} {source : Var}
    (refines : instruction.refinement? = some (result, source))
    (some : scope.usage.root source = value → 0 < window.readsOf value) :
    (window.takeRefinement scope instruction).readsOf value =
      if scope.usage.root source = value then
        window.readsOf value - 1 + scope.usage.reads result
      else window.readsOf value := by
  unfold takeRefinement
  rw [refines]
  dsimp only
  by_cases stands : scope.usage.root source = value
  · rw [if_pos stands]
    have known : window.temporaryValue = .some value := by
      by_contra other
      exact absurd (readsOf_eq_zero other) (Nat.ne_of_gt (some stands))
    obtain ⟨temporary, present, same⟩ := Option.map_eq_some_iff.mp known
    have reads : window.readsTemporary scope source = true := by
      simp [readsTemporary, known, stands]
    rw [if_pos reads, ← same, readsOf_of_temporary present]
    refine (readsOf_of_count ?_ temporary.value).trans (if_pos rfl)
    rw [present]
    rfl
  · rw [if_neg stands]
    split
    · rename_i reads
      have known : window.temporaryValue = .some (scope.usage.root source) :=
        (beq_iff_eq.mp reads).symm
      obtain ⟨temporary, present, same⟩ := Option.map_eq_some_iff.mp known
      rw [← same] at stands
      rw [readsOf_eq_zero fun other => stands (same ▸ Option.some.inj (known.symm.trans other))]
      refine (@readsOf_of_count _ temporary (temporary.readsLeft - 1 + scope.usage.reads result)
        ?_ value).trans (if_neg stands)
      rw [present]
      rfl
    · rfl

/-- A result replaces the temporary only once all reads of the temporary are done. -/
theorem readsOf_le_of_admits {scope : Scope} (admitted : window.admits scope instruction = true)
    (writes : instruction.result = some result) (known : window.temporaryValue = some value) :
    window.readsOf value ≤ instruction.operands.countP
      fun operand => decide (scope.usage.root operand = value) := by
  rw [← temporaryReads_eq known]
  obtain ⟨temporary, present, rfl⟩ := Option.map_eq_some_iff.mp known
  have kept := (admits_iff.mp admitted).keeps
  rw [overwrites, writes, present] at kept
  simp only [Option.isSome_some, Bool.true_and, Option.bind_some, Temporary.consume] at kept
  rw [readsOf_of_temporary present]
  split at kept
  · assumption
  · cases kept

section Step

variable (arranged : Arranged method (past ++ taken ++ instruction :: future))
include arranged

theorem countP_root (known : value ∈ results taken) :
    instruction.operands.countP (fun operand =>
        decide (operand ∈ results taken ∧ (Usage.ofMethod method).root operand = value)) =
      instruction.operands.countP fun operand =>
        decide ((Usage.ofMethod method).root operand = value) := by
  refine List.countP_congr fun operand read => ?_
  simp only [decide_eq_true_eq, and_iff_right_iff_imp]
  intro stands
  have before := arranged.mem_past read
  rw [results_append] at before
  rcases List.mem_append.mp before with early | inside
  · have reads := arranged.mem_reads (by simp) read
    rw [List.append_assoc] at arranged
    have first := arranged.root_mem_results reads early
    rw [stands] at first
    have absent := arranged.notMem_of_mem (stands ▸ arranged.root_mem_reads reads) first
    rw [results_append] at absent
    exact absurd (List.mem_append_left _ known) absent
  · exact inside

theorem notMem_of_result (read : value ∈ method.reads) (writes : instruction.result = some value) :
    value ∉ results taken := by
  have absent := arranged.notMem_past read writes
  rw [results_append] at absent
  exact fun inside => absent (List.mem_append_right _ inside)

/-- An instruction that refines nothing adds no reads of a value taken before. -/
theorem left_plain (plain : instruction.refinement? = none) (known : value ∈ results taken) :
    left (Usage.ofMethod method).root (taken ++ [instruction]) value future =
      left (Usage.ofMethod method).root taken value future := by
  cases writes : instruction.result with
  | none => exact left_append_of_none _ writes
  | some result =>
    rw [arranged.left_append writes, Nat.add_eq_left]
    by_contra more
    simp only [ite_eq_right_iff, Classical.not_imp] at more
    have read := mem_reads_of_ne_zero more.2
    rw [arranged.root_eq_self read (by simp) writes plain] at more
    exact notMem_of_result arranged read writes (more.1 ▸ known)

/-- The reads of a refinement's result are reads of what it refines. -/
theorem left_refinement {source : Var}
    (refines : instruction.refinement? = some (result, source)) :
    left (Usage.ofMethod method).root (taken ++ [instruction]) value future =
      left (Usage.ofMethod method).root taken value future +
        if (Usage.ofMethod method).root source = value then (Usage.ofMethod method).reads result
        else 0 := by
  rw [arranged.left_append (operands_of_refinement? refines).2]
  by_cases unread : (Usage.ofMethod method).reads result = 0
  · simp [unread]
  · rw [arranged.root_eq_root (mem_reads_of_ne_zero unread) (by simp) refines]

theorem left_result (plain : instruction.refinement? = none)
    (writes : instruction.result = some value) :
    left (Usage.ofMethod method).root (taken ++ [instruction]) value future =
      (Usage.ofMethod method).reads value := by
  have none : left (Usage.ofMethod method).root taken value future = 0 := by
    rw [left, List.countP_eq_zero]
    intro operand listed
    simp only [decide_eq_true_eq, not_and]
    intro inside stands
    obtain ⟨reader, member, reads⟩ := List.mem_flatMap.mp listed
    have read := arranged.mem_reads (by simp [member]) reads
    refine arranged.notMem_past (stands ▸ arranged.root_mem_reads read) writes ?_
    rw [← stands]
    refine arranged.root_mem_results read ?_
    rw [results_append]
    exact List.mem_append_right _ inside
  rw [arranged.left_append writes, none, Nat.zero_add]
  by_cases unread : (Usage.ofMethod method).reads value = 0
  · simp [unread]
  · rw [if_pos (arranged.root_eq_self (mem_reads_of_ne_zero unread) (by simp) writes plain)]

end Step

theorem mem_results_of_operation (produced : value ∈ results (taken.filter (·.isOperation))) :
    value ∈ results taken := by
  obtain ⟨writer, member, writes⟩ := mem_results_iff.mp produced
  exact mem_results_iff.mpr ⟨writer, (List.mem_filter.mp member).1, writes⟩

section Step

variable (arranged : Arranged method (past ++ taken ++ instruction :: future))
  (produced : value ∈ results (taken.filter (·.isOperation)))
  (before : left (Usage.ofMethod method).root taken value (instruction :: future) =
    window.readsOf value)
include arranged produced before

private theorem left_of_literal (role : instruction.role = .literal) :
    left (Usage.ofMethod method).root (taken ++ [instruction]) value future =
      window.readsOf value := by
  obtain ⟨literal, opcode⟩ := Instruction.role_eq_literal_iff.mp role
  have bare := arranged.assigned.literals instruction
    (arranged.perm.mem_iff.mp (by simp)) literal opcode
  have plain : instruction.refinement? = none := by simp [Instruction.refinement?, opcode]
  rw [left_plain arranged plain (mem_results_of_operation produced)]
  rwa [left_cons, bare, List.countP_nil, Nat.zero_add] at before

/-- A refinement of the temporary hands the reads of its result over to it. -/
private theorem left_of_refinement (role : instruction.role = .refinement) :
    left (Usage.ofMethod method).root (taken ++ [instruction]) value future =
      (window.takeRefinement (.ofMethod method limits) instruction).readsOf value := by
  obtain ⟨opcode, source, result, operands, writes⟩ := Instruction.role_eq_refinement_iff.mp role
  have refines : instruction.refinement? = some (result, source) := by
    simp [Instruction.refinement?, opcode, operands, writes]
  rw [left_cons, countP_root arranged (mem_results_of_operation produced), operands,
    List.countP_singleton] at before
  have taking : (window.takeRefinement (.ofMethod method limits) instruction).readsOf value =
      if (Usage.ofMethod method).root source = value then
        window.readsOf value - 1 + (Usage.ofMethod method).reads result
      else window.readsOf value := by
    refine readsOf_takeRefinement refines fun stands => ?_
    have stands : (Usage.ofMethod method).root source = value := stands
    rw [← before, if_pos (decide_eq_true stands)]
    omega
  rw [left_refinement arranged refines]
  refine Eq.trans ?_ taking.symm
  by_cases stands : (Usage.ofMethod method).root source = value
  · rw [if_pos stands, if_pos stands, ← before, if_pos (decide_eq_true stands)]
    omega
  · rw [if_neg stands, if_neg stands, ← before, if_neg (by simpa using stands)]
    omega

/-- An operation uses up the reads that it makes, and all of them before its result takes over. -/
private theorem left_of_operation (operates : instruction.isOperation = true)
    (admitted : window.admits (.ofMethod method limits) instruction = true)
    (differs : instruction.result ≠ some value) :
    left (Usage.ofMethod method).root (taken ++ [instruction]) value future =
      (window.takeOperation (.ofMethod method limits) instruction).readsOf value := by
  rw [left_cons, countP_root arranged (mem_results_of_operation produced)] at before
  cases writes : instruction.result with
  | none =>
    rw [left_append_of_none _ writes]
    refine Eq.trans ?_
      (readsOf_consume (temporary_takeOperation_of_none operates writes) value).symm
    by_cases known : window.temporaryValue = some value
    · rw [temporaryReads_eq known, ← before]
      exact (Nat.add_sub_cancel_left ..).symm
    · rw [readsOf_eq_zero known] at before ⊢
      omega
  | some result =>
    obtain ⟨type, made⟩ := temporary_takeOperation_of_some window (.ofMethod method limits)
      operates writes
    have other : ¬ result = value := fun same => differs (same ▸ writes)
    refine Eq.trans ?_ (readsOf_produce made value).symm
    rw [if_neg other, left_plain arranged (Instruction.refinement?_eq_none operates)
      (mem_results_of_operation produced)]
    by_cases known : window.temporaryValue = some value
    · have all : window.readsOf value ≤ instruction.operands.countP fun operand =>
          decide ((Usage.ofMethod method).root operand = value) :=
        readsOf_le_of_admits admitted writes known
      omega
    · rw [readsOf_eq_zero known] at before
      omega

end Step

/-- The reads counted for the temporary are the reads to come, and no other result of the window is
read any more. -/
theorem Grown.left_eq (grown : Grown (.ofMethod method limits) taken window)
    (arranged : Arranged method (past ++ taken ++ future))
    (produced : value ∈ results (taken.filter (·.isOperation))) :
    left (Usage.ofMethod method).root taken value future = window.readsOf value := by
  induction grown generalizing future with
  | start => cases produced
  | @literal taken window instruction grown begun role inductionHypothesis =>
    rw [filter_isOperation_append_literal role] at produced
    have arranged : Arranged method (past ++ taken ++ instruction :: future) := by
      simpa using arranged
    exact left_of_literal arranged produced (inductionHypothesis arranged produced) role
  | @refinement taken window instruction grown begun role inductionHypothesis =>
    rw [filter_isOperation_append_refinement role] at produced
    have arranged : Arranged method (past ++ taken ++ instruction :: future) := by
      simpa using arranged
    exact left_of_refinement arranged produced (inductionHypothesis arranged produced) role
  | @operation taken window instruction grown operates admitted inductionHypothesis =>
    have arranged : Arranged method (past ++ taken ++ instruction :: future) := by
      simpa using arranged
    rw [filter_isOperation_append_operation operates, results_append, List.mem_append] at produced
    by_cases writes : instruction.result = some value
    · obtain ⟨type, made⟩ := temporary_takeOperation_of_some window (.ofMethod method limits)
        operates writes
      refine Eq.trans ?_ (readsOf_produce made value).symm
      rw [if_pos rfl]
      exact left_result arranged (Instruction.refinement?_eq_none operates) writes
    · have earlier : value ∈ results (taken.filter (·.isOperation)) :=
        produced.resolve_right fun here => writes (by simpa [results] using here)
      exact left_of_operation arranged earlier (inductionHypothesis arranged earlier) operates
        admitted writes

theorem notMem_past_of_root (arranged : Arranged method (past ++ taken ++ future))
    (written : result ∈ results taken) (read : value ∈ method.reads)
    (stands : (Usage.ofMethod method).root value = result) : value ∉ results past := by
  intro early
  rw [List.append_assoc] at arranged
  have first := arranged.root_mem_results read early
  rw [stands] at first
  refine arranged.notMem_of_mem (stands ▸ arranged.root_mem_reads read) first ?_
  rw [results_append]
  exact List.mem_append_left _ written

/-- If a value that stands for a result of a window is read after it, so is a value that the
window writes. -/
theorem exists_read_taken (arranged : Arranged method (past ++ taken ++ future))
    (written : result ∈ results taken) (member : reader ∈ future) (read : value ∈ reader.operands)
    (stands : (Usage.ofMethod method).root value = result) :
    0 < left (Usage.ofMethod method).root taken result future := by
  have acyclic := arranged.assigned.acyclic
  induction value using acyclic.induction generalizing reader with
  | fixed value still =>
    have same : value = result := (root_of_parent_eq arranged.valid still).symm.trans stands
    exact stands ▸ left_pos member read (same ▸ written)
  | refined value moves inductionHypothesis =>
    by_cases inside : value ∈ results taken
    · exact stands ▸ left_pos member read inside
    · rcases parent_eq_self_or method value with same | ⟨instruction, present, refines⟩
      · exact absurd same moves
      · obtain ⟨reads, writes⟩ := operands_of_refinement? refines
        have whole := arranged.perm.mem_iff.mpr present
        have read := arranged.mem_reads (by simp [member]) read
        simp only [List.mem_append] at whole
        rcases whole with (early | here) | later
        · exact absurd (mem_results_iff.mpr ⟨instruction, early, writes⟩)
            (notMem_past_of_root arranged written read stands)
        · exact absurd (mem_results_iff.mpr ⟨instruction, here, writes⟩) inside
        · exact inductionHypothesis later reads
            ((root_parent arranged.valid acyclic value).trans stands)

/-- What is read outside of a window and stands for one of its results is the temporary. -/
theorem Grown.temporary_of_read (grown : Grown (.ofMethod method limits) taken window)
    (arranged : Arranged method (past ++ taken ++ future))
    (produced : result ∈ results (taken.filter (·.isOperation)))
    (member : reader ∈ past ++ future) (read : value ∈ reader.operands)
    (stands : (Usage.ofMethod method).root value = result) :
    window.temporaryValue = some result := by
  have written := mem_results_of_operation produced
  rcases List.mem_append.mp member with early | later
  · have reads := arranged.mem_reads (by simp [early]) read
    refine absurd ?_ (notMem_past_of_root arranged written reads stands)
    rw [List.append_assoc] at arranged
    exact arranged.mem_results early read
  · have some := exists_read_taken arranged written later read stands
    rw [grown.left_eq arranged produced] at some
    by_contra other
    exact absurd (readsOf_eq_zero other) (Nat.ne_of_gt some)

/-- What is read outside of a window and stands for one of its results is the result produced
last. -/
theorem Grown.lastResult_of_read (grown : Grown (.ofMethod method limits) taken window)
    (arranged : Arranged method (past ++ taken ++ future))
    (produced : result ∈ results (taken.filter (·.isOperation)))
    (member : reader ∈ past ++ future) (read : value ∈ reader.operands)
    (stands : (Usage.ofMethod method).root value = result) :
    lastResult (taken.filter (·.isOperation)) = some result := by
  obtain ⟨temporary, known, rfl⟩ := Option.map_eq_some_iff.mp
    (grown.temporary_of_read arranged produced member read stands)
  exact (grown.temporary_eq known).1

/-- What was read before the next instruction does not stand for the result of it. -/
private theorem notMem_results_concat {operations : List Instruction}
    (arranged : Arranged method (past ++ taken ++ instruction :: future))
    (read : value ∈ method.reads) (before : value ∈ results (past ++ taken))
    (absent : (Usage.ofMethod method).root value ∉ results operations) :
    (Usage.ofMethod method).root value ∉ results (operations ++ [instruction]) := by
  rw [results_append, List.mem_append]
  rintro (early | here)
  · exact absent early
  · obtain ⟨writer, only, writes⟩ := mem_results_iff.mp here
    obtain rfl := List.mem_singleton.mp only
    exact arranged.notMem_past (arranged.root_mem_reads read) writes
      (arranged.root_mem_results read before)

theorem Grown.notMem_results_of_mem_arguments
    (grown : Grown (.ofMethod method limits) taken window)
    (arranged : Arranged method (past ++ taken ++ future)) {argument : Argument}
    (member : argument ∈ window.arguments) :
    argument.value ∉ results (taken.filter (·.isOperation)) := by
  induction grown generalizing future with
  | start => cases member
  | @literal taken window instruction grown begun role inductionHypothesis =>
    rw [filter_isOperation_append_literal role]
    exact inductionHypothesis (by simpa using arranged) member
  | @refinement taken window instruction grown begun role inductionHypothesis =>
    rw [filter_isOperation_append_refinement role]
    exact inductionHypothesis (by simpa using arranged) (by simpa using member)
  | @operation taken window instruction grown operates admitted inductionHypothesis =>
    have arranged : Arranged method (past ++ taken ++ instruction :: future) := by
      simpa using arranged
    rw [filter_isOperation_append_operation operates]
    obtain ⟨fresh, all, known⟩ := window.bound_extends (.ofMethod method limits) instruction
    dsimp only at member
    rw [arguments_takeOperation, all] at member
    rcases List.mem_append.mp member with early | added
    · have absent := inductionHypothesis arranged early
      obtain ⟨reader, present, operand, reads, stands⟩ := grown.exists_operand early
      have inside := (List.mem_filter.mp present).1
      rw [stands] at absent ⊢
      exact notMem_results_concat arranged (arranged.mem_reads (by simp [inside]) reads)
        (arranged.mem_results (List.mem_append_right _ inside) reads) absent
    · obtain ⟨differs, operand, reads, stands⟩ := known argument added
      rw [stands] at differs ⊢
      refine notMem_results_concat arranged (arranged.mem_reads (by simp) reads)
        (arranged.mem_past reads) fun early => differs ?_
      exact (grown.temporary_of_read arranged early (by simp) reads rfl).symm

end Outlining.Window
