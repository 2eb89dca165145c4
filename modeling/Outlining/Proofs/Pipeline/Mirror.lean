import Outlining.Proofs.Pipeline.Rework
import Outlining.Proofs.Window.Lockstep

/-! A rewritten body can be completed to a body in order in which every value that is read has the
root that it had before. A value is awaited after a place in both bodies or in neither, provided
that refinements are only taken away where their results are read. -/
namespace Outlining.Pipeline

open Outlining.Bytecode Outlining.Rewriting Outlining.Template Outlining.Window

variable {outlines : List Outline} {limits : Limits} {method : Method}
  {past future original rewritten futureRewritten : List Instruction}
  {instruction reader : Instruction} {hit : Outline × Candidate} {value source : Var}

/-- What is read in place of a value after the rewriting. -/
def renamed (outlines : List Outline) (limits : Limits) (method : Method) (value : Var) : Var :=
  if (gone outlines limits method).contains value then (Usage.ofMethod method).root value
  else value

def moved (outlines : List Outline) (limits : Limits) (method : Method)
    (instruction : Instruction) : Instruction :=
  redirect (gone outlines limits method) (.ofMethod method) instruction

@[simp] theorem operands_moved (instruction : Instruction) :
    (moved outlines limits method instruction).operands =
      instruction.operands.map (renamed outlines limits method) := rfl

theorem renamed_mem_operands (read : value ∈ instruction.operands) :
    renamed outlines limits method value ∈ (moved outlines limits method instruction).operands :=
  List.mem_map_of_mem read

@[simp] theorem opcode_moved (instruction : Instruction) :
    (moved outlines limits method instruction).opcode = instruction.opcode := rfl

@[simp] theorem result_moved (instruction : Instruction) :
    (moved outlines limits method instruction).result = instruction.result := rfl

@[simp] theorem role_moved (instruction : Instruction) :
    (moved outlines limits method instruction).role = instruction.role := by
  unfold Instruction.role
  rw [operands_moved, List.length_map]
  rfl

theorem refinement?_moved (instruction : Instruction) :
    (moved outlines limits method instruction).refinement? =
      instruction.refinement?.map (Prod.map id (renamed outlines limits method)) := by
  obtain ⟨opcode, operands, result, line⟩ := instruction
  cases opcode <;> cases result <;> cases operands <;> rfl

theorem results_moved (instructions : List Instruction) :
    results (instructions.map (moved outlines limits method)) = results instructions := by
  rw [results, results, List.filterMap_map]
  rfl

theorem renamed_eq_or (value : Var) :
    renamed outlines limits method value = value ∧ value ∉ gone outlines limits method ∨
      renamed outlines limits method value = (Usage.ofMethod method).root value := by
  unfold renamed
  split
  · exact .inr rfl
  · rename_i present
    exact .inl ⟨rfl, by simpa using present⟩

/-- The method of one block with a rewritten body, completed. -/
def mirror (outlines : List Outline) (limits : Limits) (method : Method)
    (rewritten : List Instruction) : Method :=
  method.completion (rewritten.map (moved outlines limits method))

section Arranged

variable (arranged : Arranged method original)
include arranged

theorem renamed_mem_reads (read : value ∈ method.reads) :
    renamed outlines limits method value ∈ method.reads := by
  rcases renamed_eq_or value with ⟨same, _⟩ | same
  · rwa [same]
  · rw [same]
    exact arranged.root_mem_reads read

theorem renamed_root (value : Var) : renamed outlines limits method
    ((Usage.ofMethod method).root value) = (Usage.ofMethod method).root value := by
  rcases renamed_eq_or ((Usage.ofMethod method).root value) with ⟨same, _⟩ | same
  · exact same
  · rw [same, root_root arranged.valid arranged.assigned.acyclic]

theorem exists_operand_of_call (replaced : hit ∈ hits outlines (found limits method))
    (read : value ∈ (editOf method hit).call.operands) :
    (∃ reader ∈ windowOf method hit.2, ∃ operand ∈ reader.operands,
      operand ∈ method.reads ∧ (Usage.ofMethod method).root operand = value) ∧
    value ∉ results (operationsOf method hit.2) := by
  obtain ⟨⟨place, reader, covers, there, _, operand, reads, stands⟩, absent⟩ :=
    of_mem_arguments arranged.valid arranged.assigned (mem_hits_iff.mp replaced).1 read
  refine ⟨⟨reader, mem_windowOf_iff.mpr ⟨place, covers, there⟩, operand, reads, ?_, stands⟩, absent⟩
  exact List.mem_flatMap.mpr ⟨reader, mem_instructions_iff.mpr ⟨_, place, there⟩, reads⟩

end Arranged

/-- What an instruction reads after the rewriting is not written from there on. -/
theorem notMem_of_keep (arranged : Arranged method (past ++ instruction :: future))
    (read : value ∈ instruction.operands) :
    renamed outlines limits method value ∉ results (instruction :: future) := by
  have reads := arranged.mem_reads (by simp) read
  have before := arranged.mem_past read
  rcases renamed_eq_or value with ⟨same, _⟩ | same
  · rw [same]
    exact arranged.notMem_of_mem reads before
  · rw [same]
    exact arranged.notMem_of_mem (arranged.root_mem_reads reads)
      (arranged.root_mem_results reads before)

theorem renamed_of_call (arranged : Arranged method (past ++ (windowOf method hit.2 ++ future)))
    (replaced : hit ∈ hits outlines (found limits method))
    (read : value ∈ (editOf method hit).call.operands) :
    renamed outlines limits method value ∉ results future ∧
      (editOf method hit).call.result ≠ some (renamed outlines limits method value) := by
  obtain ⟨⟨reader, inside, operand, reads, among, rfl⟩, absent⟩ :=
    exists_operand_of_call arranged replaced read
  rw [renamed_root arranged]
  constructor
  · rw [← List.append_assoc] at arranged
    have before := arranged.mem_results (List.mem_append_right _ inside) reads
    exact arranged.notMem_of_mem (arranged.root_mem_reads among)
      (arranged.root_mem_results among before)
  · intro writes
    have last := lastResult_of_call (labelled_of_valid arranged.valid) replaced writes
    exact absent (List.mem_of_getLast? last)

theorem bare_of_literal (arranged : Arranged method original) (member : instruction ∈ original)
    (literal : instruction.role = .literal) : instruction.operands = [] := by
  obtain ⟨constant, opcode⟩ := Instruction.role_eq_literal_iff.mp literal
  exact arranged.assigned.literals instruction (arranged.perm.mem_iff.mp member) constant opcode

/-- Whether a writer leaves what another instruction reads after the rewriting as it is. -/
def Respects (outlines : List Outline) (limits : Limits) (method : Method)
    (reader writer : Instruction) : Prop :=
  ∀ operand ∈ reader.operands, writer.result ≠ some (renamed outlines limits method operand)

theorem respects_of_keep (arranged : Arranged method (past ++ instruction :: original))
    (rest : Reworked outlines limits method original rewritten) {writer : Instruction}
    (member : writer ∈ instruction :: rewritten) :
    Respects outlines limits method instruction writer := by
  intro operand read writes
  have absent : renamed outlines limits method operand ∉ results (instruction :: original) :=
    notMem_of_keep arranged read
  apply absent
  rcases List.mem_cons.mp member with rfl | member
  · exact mem_results_iff.mpr ⟨writer, List.mem_cons_self, writes⟩
  · have written := rest.results_subset (labelled_of_valid arranged.valid)
      (mem_results_iff.mpr ⟨writer, member, writes⟩)
    rw [← List.singleton_append, results_append]
    exact List.mem_append_right _ written

theorem respects_of_call (arranged : Arranged method (past ++ (windowOf method hit.2 ++ original)))
    (replaced : hit ∈ hits outlines (found limits method))
    (rest : Reworked outlines limits method original rewritten) {writer : Instruction}
    (member : writer ∈ (editOf method hit).call :: rewritten) :
    Respects outlines limits method (editOf method hit).call writer := by
  intro operand read writes
  obtain ⟨absent, own⟩ := renamed_of_call arranged replaced read
  rcases List.mem_cons.mp member with rfl | member
  · exact own writes
  · exact absent (rest.results_subset (labelled_of_valid arranged.valid)
      (mem_results_iff.mpr ⟨writer, member, writes⟩))

theorem respects_of_literal
    (arranged : Arranged method (past ++ (windowOf method hit.2 ++ original)))
    (member : instruction ∈ kept (windowOf method hit.2)) (writer : Instruction) :
    Respects outlines limits method instruction writer := by
  obtain ⟨inside, literal⟩ := List.mem_filter.mp member
  have among := List.mem_append_left original (List.dropLast_subset _ inside)
  have bare := bare_of_literal arranged (List.mem_append_right past among) (beq_iff_eq.mp literal)
  intro operand read
  rw [bare] at read
  cases read

/-- What is read after the rewriting is not written by its reader or later. -/
theorem Reworked.later (reworked : Reworked outlines limits method original rewritten)
    (arranged : Arranged method (past ++ original)) :
    rewritten.Pairwise (Respects outlines limits method) ∧
      ∀ instruction ∈ rewritten, Respects outlines limits method instruction instruction := by
  induction reworked generalizing past with
  | done => exact ⟨.nil, by simp⟩
  | @keep original rewritten instruction rest inductionHypothesis =>
    have further : Arranged method (past ++ [instruction] ++ original) := by simpa using arranged
    obtain ⟨later, apart⟩ := inductionHypothesis further
    have stays : ∀ writer ∈ instruction :: rewritten,
        Respects outlines limits method instruction writer :=
      fun writer => respects_of_keep arranged rest
    rw [List.forall_mem_cons] at stays
    exact ⟨List.pairwise_cons.mpr ⟨stays.2, later⟩, List.forall_mem_cons.mpr ⟨stays.1, apart⟩⟩
  | @replace original rewritten hit replaced rest inductionHypothesis =>
    have further : Arranged method (past ++ windowOf method hit.2 ++ original) := by
      rwa [List.append_assoc]
    obtain ⟨later, apart⟩ := inductionHypothesis further
    have called : ∀ writer ∈ (editOf method hit).call :: rewritten,
        Respects outlines limits method (editOf method hit).call writer :=
      fun writer => respects_of_call arranged replaced rest
    have silent : ∀ reader ∈ kept (windowOf method hit.2), ∀ writer,
        Respects outlines limits method reader writer :=
      fun reader => respects_of_literal arranged
    rw [List.forall_mem_cons] at called
    refine ⟨List.pairwise_append.mpr ⟨?_, List.pairwise_cons.mpr ⟨called.2, later⟩, ?_⟩, ?_⟩
    · exact List.pairwise_of_forall_mem_list fun reader member writer _ =>
        silent reader member writer
    · exact fun reader member writer _ => silent reader member writer
    · intro instruction member
      simp only [List.mem_append, List.mem_cons] at member
      rcases member with literal | rfl | member
      · exact silent instruction literal instruction
      · exact called.1
      · exact apart instruction member

section Mirror

variable (arranged : Arranged method original)
  (reworked : Reworked outlines limits method original rewritten)
include arranged reworked

theorem mem_reads_of_reworked (member : instruction ∈ rewritten)
    (read : value ∈ instruction.operands) : value ∈ method.reads := by
  rcases reworked.mem_cases member with there | ⟨hit, replaced, rfl, _⟩
  · exact arranged.mem_reads there read
  · obtain ⟨⟨_, _, operand, _, among, rfl⟩, _⟩ := exists_operand_of_call arranged replaced read
    exact arranged.root_mem_reads among

theorem forward_moved : Forward (rewritten.map (moved outlines limits method)) := by
  have whole : Arranged method ([] ++ original) := arranged
  obtain ⟨later, apart⟩ := reworked.later whole
  refine ⟨?_, ?_, ?_⟩
  · intro instruction member operand read
    obtain ⟨before, present, rfl⟩ := List.mem_map.mp member
    obtain ⟨source, reads, rfl⟩ := List.mem_map.mp read
    have among : renamed outlines limits method source ∈ method.reads :=
      renamed_mem_reads arranged (mem_reads_of_reworked arranged reworked present reads)
    rw [results_moved, ← arranged.count_results among]
    exact reworked.count_results (labelled_of_valid arranged.valid) _
  · intro instruction member operand read
    obtain ⟨before, present, rfl⟩ := List.mem_map.mp member
    obtain ⟨source, reads, rfl⟩ := List.mem_map.mp read
    exact apart before present source reads
  · rw [List.pairwise_map]
    refine later.imp fun apart operand read => ?_
    obtain ⟨source, reads, rfl⟩ := List.mem_map.mp read
    exact apart source reads

private theorem defect?_moved (member : instruction ∈ rewritten) :
    (moved outlines limits method instruction).defect? method.types.length = none := by
  rw [Instruction.defect?_eq_none_iff]
  constructor
  · intro value named
    rcases List.mem_append.mp named with read | written
    · obtain ⟨source, reads, rfl⟩ := List.mem_map.mp read
      obtain ⟨reader, present, reads⟩ := List.mem_flatMap.mp
        (renamed_mem_reads arranged (mem_reads_of_reworked arranged reworked member reads))
      exact lt_of_valid arranged.valid present (List.mem_append_left _ reads)
    · rw [Option.mem_toList, result_moved] at written
      obtain ⟨writer, present, writes⟩ := mem_results_iff.mp
        (reworked.results_subset (labelled_of_valid arranged.valid)
          (mem_results_iff.mpr ⟨instruction, member, written⟩))
      exact lt_of_valid arranged.valid (arranged.perm.mem_iff.mp present)
        (List.mem_append_right _ (by simp [writes]))
  · intro opcode
    rcases reworked.mem_cases member with there | ⟨hit, _, rfl, _⟩
    · rw [operands_moved, List.length_map]
      exact ((Instruction.defect?_eq_none_iff ..).mp
        (defect?_of_mem arranged.valid (arranged.perm.mem_iff.mp there))).2 opcode
    · cases opcode

/-- The mirror of a body is in order. -/
theorem arranged_mirror : Arranged (mirror outlines limits method rewritten)
    (completed (rewritten.map (moved outlines limits method))) := by
  have bare {special : Opcode → Prop} (called : ∀ kind target relocatable,
        ¬ special (.call kind target relocatable))
      (bare : ∀ instruction ∈ method.instructions, special instruction.opcode →
        instruction.operands = []) :
      ∀ instruction ∈ rewritten.map (moved outlines limits method),
        special instruction.opcode → instruction.operands = [] := by
    intro instruction member opcode
    obtain ⟨before, present, rfl⟩ := List.mem_map.mp member
    rcases reworked.mem_cases present with there | ⟨hit, _, rfl, _⟩
    · rw [operands_moved, bare before (arranged.perm.mem_iff.mp there) opcode]
      rfl
    · exact absurd opcode (called _ _ _)
  apply (forward_moved arranged reworked).arranged
  · intro instruction member
    obtain ⟨before, present, rfl⟩ := List.mem_map.mp member
    exact defect?_moved arranged reworked present
  · intro instruction member value
    exact @bare (· = .literal value) nofun
      (fun other present => arranged.assigned.literals other present value) instruction member
  · intro instruction member cls
    exact @bare (· = .allocate cls) nofun
      (fun other present => arranged.assigned.allocations other present cls) instruction member

omit arranged in
theorem exists_refinement_of_mirror
    (member : instruction ∈ (mirror outlines limits method rewritten).instructions)
    (refines : instruction.refinement? = some (value, source)) :
    ∃ refinement ∈ original, ∃ refined, refinement.refinement? = some (value, refined) ∧
      source = renamed outlines limits method refined := by
  rw [mirror, Method.instructions_completion] at member
  rcases mem_completed_iff.mp member with ⟨other, _, rfl⟩ | member
  · cases refines
  · obtain ⟨before, present, rfl⟩ := List.mem_map.mp member
    rw [refinement?_moved] at refines
    obtain ⟨⟨result, refined⟩, known, same⟩ := Option.map_eq_some_iff.mp refines
    obtain ⟨rfl, rfl⟩ := Prod.mk.inj same
    rcases reworked.mem_cases present with there | ⟨hit, _, rfl, _⟩
    · exact ⟨before, there, refined, known, rfl⟩
    · cases known

theorem root_mirror_of_parent_eq (read : value ∈ method.reads)
    (fixed : method.parent value = value) :
    (Usage.ofMethod (mirror outlines limits method rewritten)).root value = value := by
  apply root_of_parent_eq (arranged_mirror arranged reworked).valid
  rcases parent_eq_self_or (mirror outlines limits method rewritten) value with
    same | ⟨instruction, member, refines⟩
  · exact same
  · obtain ⟨refinement, there, refined, known, _⟩ :=
      exists_refinement_of_mirror reworked member refines
    have present := arranged.perm.mem_iff.mp there
    obtain ⟨reads, writes⟩ := operands_of_refinement? known
    have same := (arranged.assigned.parent_eq_source read present known).symm.trans fixed
    exact absurd writes (arranged.assigned.result_ne present (same ▸ reads))

/-- A refinement that is kept refines what is read in place of the value that it refined. -/
theorem parent_mirror (read : value ∈ method.reads) (kept : instruction ∈ rewritten)
    (present : instruction ∈ method.instructions)
    (refines : instruction.refinement? = some (value, source)) :
    (mirror outlines limits method rewritten).parent value =
      renamed outlines limits method source := by
  have listed : moved outlines limits method instruction ∈
      (mirror outlines limits method rewritten).instructions := by
    rw [mirror, Method.instructions_completion]
    exact mem_completed_iff.mpr (.inr (List.mem_map_of_mem kept))
  have again : (moved outlines limits method instruction).refinement? =
      some (value, renamed outlines limits method source) := by
    rw [refinement?_moved, refines]
    rfl
  obtain ⟨last, member, known⟩ := exists_refinement_parent listed again
  obtain ⟨other, there, refined, knownToo, parent⟩ :=
    exists_refinement_of_mirror reworked member known
  obtain rfl := arranged.assigned.eq_writer read present (operands_of_refinement? refines).2
    (arranged.perm.mem_iff.mp there) (operands_of_refinement? knownToo).2
  rw [refines] at knownToo
  obtain ⟨_, rfl⟩ := Prod.mk.inj (Option.some.inj knownToo)
  exact parent

/-- What is read in place of a value has the root that the value had. -/
theorem root_mirror (read : value ∈ method.reads) :
    (Usage.ofMethod (mirror outlines limits method rewritten)).root
        (renamed outlines limits method value) = (Usage.ofMethod method).root value := by
  have acyclic := arranged.assigned.acyclic
  have ordered := arranged_mirror arranged reworked
  induction value using acyclic.induction with
  | fixed value still =>
    have root := root_of_parent_eq arranged.valid still
    have same : renamed outlines limits method value = value := by
      rcases renamed_eq_or value with ⟨same, _⟩ | same
      · exact same
      · exact same.trans root
    rw [same, root, root_mirror_of_parent_eq arranged reworked read still]
  | refined value moves inductionHypothesis =>
    rcases parent_eq_self_or method value with same | ⟨refinement, present, refines⟩
    · exact absurd same moves
    obtain ⟨reads, writes⟩ := operands_of_refinement? refines
    have before := inductionHypothesis (List.mem_flatMap.mpr ⟨refinement, present, reads⟩)
    rw [root_parent arranged.valid acyclic] at before
    rcases renamed_eq_or value with ⟨same, stays⟩ | same
    · -- the refinement is still there, since its result is not gone
      have kept : refinement ∈ rewritten := by
        rcases reworked.mem_or_of_mem (arranged.perm.mem_iff.mpr present) with
          kept | ⟨hit, replaced, inside, _⟩
        · exact kept
        · have role :=
            Instruction.role_of_refinement? (defect?_of_mem arranged.valid present) refines
          exact absurd (mem_gone arranged.valid replaced inside role writes) stays
      rw [same, ← root_parent ordered.valid ordered.assigned.acyclic,
        parent_mirror arranged reworked read kept present refines, before]
    · rw [same]
      exact root_mirror_of_parent_eq arranged reworked (arranged.root_mem_reads read)
        (parent_root arranged.valid acyclic value)

/-- Every instruction does the same to values with the same roots after the rewriting. -/
theorem mirrors_mirror : Mirrors limits method (mirror outlines limits method rewritten)
    (moved outlines limits method) where
  types := rfl
  twins := by
    intro instruction member
    refine ⟨rfl, rfl, ?_⟩
    rw [operands_moved, List.map_map]
    refine List.map_congr_left fun operand read => ?_
    exact root_mirror arranged reworked (List.mem_flatMap.mpr ⟨instruction, member, read⟩)

end Mirror

/-- Whether replaced windows contain only refinements whose results are read. -/
def RefinesForReaders (outlines : List Outline) (limits : Limits) (method : Method) : Prop :=
  ∀ hit ∈ hits outlines (found limits method), ∀ instruction ∈ windowOf method hit.2,
    instruction.role = .refinement → ∀ value, instruction.result = some value →
      value ∈ method.reads

private theorem exists_last_reader (awaited : IsAwaited method future value) :
    ∃ front reader back, future = front ++ reader :: back ∧
      (∃ operand ∈ reader.operands, (Usage.ofMethod method).root operand = value) ∧
      ¬ IsAwaited method back value := by
  induction future with
  | nil =>
    obtain ⟨_, member, _⟩ := awaited
    cases member
  | cons instruction future inductionHypothesis =>
    by_cases later : IsAwaited method future value
    · obtain ⟨front, reader, back, rfl, reads, last⟩ := inductionHypothesis later
      exact ⟨instruction :: front, reader, back, rfl, reads, last⟩
    · refine ⟨[], instruction, future, rfl, ?_, later⟩
      obtain ⟨reader, member, reads⟩ := awaited
      rcases List.mem_cons.mp member with rfl | member
      · exact reads
      · exact absurd ⟨reader, member, reads⟩ later

private theorem notMem_reads_of_last {front back : List Instruction} {operand : Var}
    (arranged : Arranged method (past ++ (front ++ reader :: back)))
    (refines : reader.refinement? = some (source, operand))
    (stands : (Usage.ofMethod method).root operand = value)
    (last : ¬ IsAwaited method back value) : source ∉ method.reads := by
  intro read
  have later : Arranged method (past ++ front ++ reader :: back) := by simpa using arranged
  have counted := later.count_future (operands_of_refinement? refines).2
  obtain ⟨user, present, uses⟩ := List.mem_flatMap.mp read
  have inside := lt_of_valid arranged.valid present (List.mem_append_left _ uses)
  rw [Usage.reads_ofMethod, if_pos inside] at counted
  have some := List.count_pos_iff.mpr read
  obtain ⟨user, member, uses⟩ := List.mem_flatMap.mp (List.count_pos_iff.mp (counted ▸ some))
  have root := later.root_eq_root read (by simp) refines
  exact last ⟨user, member, source, uses, root.trans stands⟩

/-- What is read last of a value written before is not read by a window that was replaced, unless
the value is passed to the call. -/
private theorem mem_arguments_of_window (arranged : Arranged method (past ++ future))
    (written : value ∈ results past) (readers : RefinesForReaders outlines limits method)
    {front back : List Instruction} {operand : Var} (parts : future = front ++ reader :: back)
    (read : operand ∈ reader.operands) (stands : (Usage.ofMethod method).root operand = value)
    (last : ¬ IsAwaited method back value)
    (replaced : hit ∈ hits outlines (found limits method))
    (inside : reader ∈ windowOf method hit.2) (whole : windowOf method hit.2 ⊆ future) :
    value ∈ hit.2.arguments := by
  have listed := (mem_hits_iff.mp replaced).1
  have present : reader ∈ past ++ future := by simp [parts]
  rcases role_of_mem_windowOf listed (labelled_of_valid arranged.valid) inside with
    operates | literal | refines
  · rcases root_mem_of_operation arranged.valid arranged.assigned listed
      (List.mem_filter.mpr ⟨inside, operates⟩) read with passed | produced
    · exact stands ▸ passed
    · rw [stands] at produced
      obtain ⟨writer, member, writes⟩ := mem_results_iff.mp produced
      have among := arranged.root_mem_reads (arranged.mem_reads present read)
      rw [stands] at among
      exact absurd (mem_results_iff.mpr ⟨writer, whole (List.mem_filter.mp member).1, writes⟩)
        (arranged.notMem_of_mem among written)
  · rw [bare_of_literal arranged present literal] at read
    cases read
  · obtain ⟨opcode, refined, result, operands, writes⟩ :=
      Instruction.role_eq_refinement_iff.mp refines
    have known : reader.refinement? = some (result, refined) := by
      simp [Instruction.refinement?, opcode, operands, writes]
    obtain rfl : operand = refined := by simpa [operands] using read
    have isRead := readers hit replaced reader inside refines result writes
    rw [parts] at arranged
    exact absurd isRead (notMem_reads_of_last arranged known stands last)

section Awaited

variable (arranged : Arranged method (past ++ future))
  (reworked : Reworked outlines limits method (past ++ future) rewritten)
  (follows : Reworked outlines limits method future futureRewritten)
include arranged reworked follows

private theorem isAwaited_of_mirror (awaited : IsAwaited (mirror outlines limits method rewritten)
      (futureRewritten.map (moved outlines limits method)) value) :
    IsAwaited method future value := by
  obtain ⟨reader, member, operand, read, stands⟩ := awaited
  obtain ⟨before, present, rfl⟩ := List.mem_map.mp member
  rw [operands_moved] at read
  obtain ⟨operand, reads, rfl⟩ := List.mem_map.mp read
  rcases follows.mem_cases present with there | ⟨hit, replaced, rfl, whole⟩
  · have among := arranged.mem_reads (List.mem_append_right past there) reads
    rw [root_mirror arranged reworked among] at stands
    exact ⟨before, there, operand, reads, stands⟩
  · obtain ⟨⟨reader, inside, passed, taken, among, rfl⟩, _⟩ :=
      exists_operand_of_call arranged replaced reads
    rw [root_mirror arranged reworked (arranged.root_mem_reads among),
      root_root arranged.valid arranged.assigned.acyclic] at stands
    exact ⟨reader, whole inside, passed, taken, stands⟩

theorem isAwaited_mirror_iff (written : value ∈ results past)
    (readers : RefinesForReaders outlines limits method) :
    IsAwaited method future value ↔ IsAwaited (mirror outlines limits method rewritten)
      (futureRewritten.map (moved outlines limits method)) value := by
  refine ⟨fun awaited => ?_, isAwaited_of_mirror arranged reworked follows⟩
  -- the last reader is kept, or the call of its window passes the value
  obtain ⟨front, reader, back, parts, ⟨operand, read, stands⟩, last⟩ := exists_last_reader awaited
  have member : reader ∈ future := by simp [parts]
  have among := arranged.mem_reads (List.mem_append_right past member) read
  rcases follows.mem_or_of_mem member with kept | ⟨hit, replaced, inside, whole, called⟩
  · refine ⟨_, List.mem_map_of_mem kept, _, renamed_mem_operands read, ?_⟩
    rw [root_mirror arranged reworked among, stands]
  · have passed := mem_arguments_of_window arranged written readers parts read stands last replaced
      inside whole
    have reads : value ∈ (editOf method hit).call.operands := passed
    refine ⟨_, List.mem_map_of_mem called, _, renamed_mem_operands reads, ?_⟩
    rw [← stands, root_mirror arranged reworked (arranged.root_mem_reads among),
      root_root arranged.valid arranged.assigned.acyclic]

end Awaited

end Outlining.Pipeline
