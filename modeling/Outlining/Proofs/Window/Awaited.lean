import Outlining.Proofs.Window.Liveness

/-! In a body in order, a window has a temporary exactly if its last result is read after it, be it
under another name. This says the same of the counted reads without counting. Whatever keeps the
temporary from being overwritten reads it, or a refinement of it in the window. -/
namespace Outlining.Window

open Outlining.Bytecode

variable {method : Method} {limits : Limits} {past taken future : List Instruction}
  {instruction : Instruction} {window : Window} {value : Var}

/-- Whether some of the instructions read a value under any of its names. -/
def IsAwaited (method : Method) (future : List Instruction) (value : Var) : Prop :=
  ∃ reader ∈ future, ∃ operand ∈ reader.operands, (Usage.ofMethod method).root operand = value

theorem isAwaited_append {first second : List Instruction} :
    IsAwaited method (first ++ second) value ↔
      IsAwaited method first value ∨ IsAwaited method second value := by
  simp only [IsAwaited, List.mem_append, or_and_right, exists_or]

theorem isAwaited_of_left (some : 0 < left (Usage.ofMethod method).root taken value future) :
    IsAwaited method future value := by
  obtain ⟨operand, listed, known⟩ := List.countP_pos_iff.mp some
  obtain ⟨reader, member, read⟩ := List.mem_flatMap.mp listed
  exact ⟨reader, member, operand, read, (of_decide_eq_true known).2⟩

theorem Grown.isSome_temporary_iff (grown : Grown (.ofMethod method limits) taken window)
    (arranged : Arranged method (past ++ taken ++ future)) :
    window.temporary.isSome = true ↔
      ∃ value, lastResult (taken.filter (·.isOperation)) = some value ∧
        IsAwaited method future value := by
  constructor
  · intro present
    obtain ⟨temporary, known⟩ := Option.isSome_iff_exists.mp present
    obtain ⟨last, more⟩ := grown.temporary_eq known
    have some : 0 < left (Usage.ofMethod method).root taken temporary.value future := by
      rwa [grown.left_eq arranged (List.mem_of_getLast? last), readsOf_of_temporary known]
    exact ⟨temporary.value, last, isAwaited_of_left some⟩
  · rintro ⟨value, last, reader, member, operand, read, stands⟩
    have known := grown.temporary_of_read arranged (List.mem_of_getLast? last)
      (List.mem_append_right past member) read stands
    obtain ⟨temporary, present, _⟩ := Option.map_eq_some_iff.mp known
    exact Option.isSome_iff_exists.mpr ⟨temporary, present⟩

/-- An instruction that refines nothing leaves reads of the temporary exactly if the last result is
awaited after it. -/
private theorem lt_readsLeft_iff {temporary : Temporary}
    (grown : Grown (.ofMethod method limits) taken window)
    (arranged : Arranged method (past ++ taken ++ instruction :: future))
    (plain : instruction.refinement? = none) (known : window.temporary = some temporary) :
    window.temporaryReads (.ofMethod method limits) instruction < temporary.readsLeft ↔
      IsAwaited method future temporary.value := by
  have last := (grown.temporary_eq known).1
  have produced := List.mem_of_getLast? last
  have written := mem_results_of_operation produced
  have counted := grown.left_eq arranged produced
  rw [left_cons, countP_root arranged written, readsOf_of_temporary known] at counted
  have stands : window.temporaryValue = some temporary.value := by simp [temporaryValue, known]
  have reads : window.temporaryReads (.ofMethod method limits) instruction =
      instruction.operands.countP fun operand =>
        decide ((Usage.ofMethod method).root operand = temporary.value) :=
    temporaryReads_eq stands instruction
  rw [reads, ← counted, Nat.lt_add_right_iff_pos]
  constructor
  · exact isAwaited_of_left
  · rintro ⟨reader, member, operand, read, stands⟩
    rw [← left_plain arranged plain written]
    have further : Arranged method (past ++ (taken ++ [instruction]) ++ future) := by
      simpa using arranged
    refine exists_read_taken further ?_ member read stands
    rw [results_append]
    exact List.mem_append_left _ written

/-- An instruction that refines nothing overwrites the temporary exactly if it has a result and the
last result is awaited after it. -/
theorem Grown.overwrites_iff (grown : Grown (.ofMethod method limits) taken window)
    (arranged : Arranged method (past ++ taken ++ instruction :: future))
    (plain : instruction.refinement? = none) :
    window.overwrites (.ofMethod method limits) instruction = true ↔
      instruction.result.isSome = true ∧
        ∃ value, lastResult (taken.filter (·.isOperation)) = some value ∧
          IsAwaited method future value := by
  rw [overwrites, Bool.and_eq_true]
  apply and_congr_right
  intro _
  cases known : window.temporary with
  | none =>
    have nothing : ¬ window.temporary.isSome = true := by simp [known]
    rw [grown.isSome_temporary_iff arranged] at nothing
    refine iff_of_false (by simp) ?_
    rintro ⟨value, last, awaited⟩
    rw [← List.singleton_append] at nothing
    exact nothing ⟨value, last, isAwaited_append.mpr (.inr awaited)⟩
  | some temporary =>
    have last := (grown.temporary_eq known).1
    rw [Option.bind_some, Temporary.consume, last]
    have more := lt_readsLeft_iff grown arranged plain known
    split
    · rename_i done
      refine iff_of_false (by simp) ?_
      rintro ⟨value, same, awaited⟩
      cases same
      exact Nat.not_lt.mpr done (more.mpr awaited)
    · rename_i left
      exact iff_of_true rfl ⟨_, rfl, more.mp (Nat.not_le.mp left)⟩

/-- An instruction that would overwrite the temporary leaves a reader of it, which reads the value
itself or a refinement of it that the window has taken. -/
theorem Grown.exists_reader (grown : Grown (.ofMethod method limits) taken window)
    (arranged : Arranged method (past ++ taken ++ instruction :: future))
    (plain : instruction.refinement? = none)
    (overwrites : window.overwrites (.ofMethod method limits) instruction = true) :
    ∃ result, window.temporaryValue = some result ∧
      ∃ reader ∈ future, ∃ value ∈ reader.operands, (Usage.ofMethod method).root value = result ∧
        (value = result ∨ ∃ refinement ∈ taken, ∃ source,
          refinement.refinement? = some (value, source)) := by
  obtain ⟨_, result, last, reader, member, operand, read, stands⟩ :=
    (grown.overwrites_iff arranged plain).mp overwrites
  have produced := List.mem_of_getLast? last
  have written := mem_results_of_operation produced
  have standing := grown.temporary_of_read arranged produced
    (List.mem_append_right past (List.mem_cons_of_mem _ member)) read stands
  refine ⟨result, standing, ?_⟩
  have further : Arranged method (past ++ (taken ++ [instruction]) ++ future) := by
    simpa using arranged
  have more : result ∈ results (taken ++ [instruction]) := by
    rw [results_append]
    exact List.mem_append_left _ written
  have some := exists_read_taken further more member read stands
  rw [left_plain arranged plain written] at some
  obtain ⟨value, listed, known⟩ := List.countP_pos_iff.mp some
  obtain ⟨reader, member, read⟩ := List.mem_flatMap.mp listed
  obtain ⟨inside, stands⟩ := of_decide_eq_true known
  refine ⟨reader, member, value, read, stands, ?_⟩
  obtain ⟨writer, among, writes⟩ := mem_results_iff.mp inside
  cases refines : writer.refinement? with
  | none =>
    have self := arranged.root_eq_self (arranged.mem_reads (by simp [member]) read)
      (by simp [among]) writes refines
    exact .inl (self.symm.trans stands)
  | some refined =>
    obtain ⟨result, source⟩ := refined
    obtain rfl := Option.some.inj (writes.symm.trans (operands_of_refinement? refines).2)
    exact .inr ⟨writer, among, source, refines⟩

end Outlining.Window
