import Outlining.Proofs.Pipeline.Reads

/-! A window whose outline returns nothing takes its results away. Every value that is read after a
run is written exactly if no such result is read from outside of its window. -/
namespace Outlining

open Outlining.Bytecode Outlining.Rewriting Outlining.Template Outlining.Window

namespace Pipeline

variable {outlines : List Outline} {limits : Limits} {method : Method} {label : Label}
  {place : Nat} {instruction reader : Instruction} {hit : Outline × Candidate} {value : Var}

/-- Whether the outline of a window returns nothing, although an instruction outside of the window
reads one of its results. A refinement in another replaced window does not count, since it is
taken away as well. -/
def Strands (method : Method) (replaced : List (Outline × Candidate))
    (hit : Outline × Candidate) : Prop :=
  hit.1.reference.prototype.returnType.isVoid = true ∧
    ∃ label place instruction, method.instruction? label place = some instruction ∧
      ¬ hit.2.Covers label place ∧
      (instruction.role = .refinement → ∀ other ∈ replaced, ¬ other.2.Covers label place) ∧
      ∃ operand ∈ instruction.operands,
        (Usage.ofMethod method).root operand ∈ results (operationsOf method hit.2)

/-- Whether outlines are declared to return what their templates return. -/
def Declared (outlines : List Outline) : Prop :=
  ∀ outline ∈ outlines, outline.reference.prototype.returnType = outline.template.returnType

theorem returnType_of_hit (declared : Declared outlines)
    (replaced : hit ∈ hits outlines (found limits method)) :
    hit.1.reference.prototype.returnType = hit.2.template.returnType := by
  have known := (mem_hits_iff.mp replaced).2
  have template : hit.1.template = hit.2.template := by simpa using List.find?_some known
  rw [declared hit.1 (List.mem_of_find?_eq_some known), template]

theorem mem_operands_redirect {gone : List Var} {usage : Usage}
    (read : value ∈ instruction.operands) :
    (if gone.contains value then usage.root value else value) ∈
      (redirect gone usage instruction).operands :=
  List.mem_map_of_mem read

theorem operands_of_mem_windowOf (candidate : Candidate) (valid : method.defect? = none)
    (assigned : method.SingleAssignment) (listed : candidate ∈ found limits method)
    (inside : instruction ∈ windowOf method candidate) (plain : instruction.role ≠ .refinement)
    (read : value ∈ instruction.operands) : instruction ∈ operationsOf method candidate := by
  rcases role_of_mem_windowOf listed (labelled_of_valid valid) inside with
    operates | literal | refines
  · exact List.mem_filter.mpr ⟨inside, operates⟩
  · obtain ⟨constant, opcode⟩ := Instruction.role_eq_literal_iff.mp literal
    obtain ⟨place, _, found⟩ := mem_windowOf_iff.mp inside
    have bare := assigned.literals instruction
      (mem_instructions_iff.mpr ⟨_, place, found⟩) constant opcode
    rw [bare] at read
    cases read
  · exact absurd refines plain

section

variable (valid : method.defect? = none) (assigned : method.SingleAssignment)
include valid assigned

/-- What is read is still written after the edits, or a replaced window produces it. A refinement
that is gone is not read any more. -/
theorem mem_results_or (read : value ∈ method.reads)
    (stays : value ∉ gone outlines limits method ∨ method.parent value = value) :
    value ∈ results (rewritten outlines limits method).instructions ∨
      ∃ hit ∈ hits outlines (found limits method), value ∈ results (operationsOf method hit.2) ∧
        (Usage.ofMethod method).root value = value := by
  obtain ⟨reader, present, reads⟩ := List.mem_flatMap.mp read
  obtain ⟨writer, member, writes⟩ := mem_results_iff.mp (assigned.defined reader present value reads)
  obtain ⟨label, place, there⟩ := mem_instructions_iff.mp member
  by_cases kept : Kept (hits outlines (found limits method)) label place writer
  · exact .inl (mem_results_iff.mpr ⟨_, mem_rewritten_of_kept valid there kept, writes⟩)
  · simp only [Kept, not_forall] at kept
    obtain ⟨hit, replaced, covers, solid⟩ := kept
    have inside : writer ∈ windowOf method hit.2 :=
      mem_windowOf_iff.mpr ⟨place, ⟨rfl, covers.2⟩, covers.1 ▸ there⟩
    have listed := (mem_hits_iff.mp replaced).1
    rcases role_of_mem_windowOf listed (labelled_of_valid valid) inside with
      operates | literal | refines
    · have plain := Instruction.refinement?_eq_none operates
      exact .inr ⟨hit, replaced,
        mem_results_iff.mpr ⟨writer, List.mem_filter.mpr ⟨inside, operates⟩, writes⟩,
        root_of_parent_eq valid (assigned.parent_eq_self read member writes plain)⟩
    · exact absurd literal solid
    · have taken := mem_gone valid replaced inside refines writes
      obtain ⟨opcode, source, result, operands, produced⟩ :=
        Instruction.role_eq_refinement_iff.mp refines
      obtain rfl : result = value := Option.some.inj (produced.symm.trans writes)
      have known : writer.refinement? = some (result, source) := by
        simp [Instruction.refinement?, opcode, operands, produced]
      rcases stays with present | fixed
      · exact absurd taken present
      · obtain rfl : source = result :=
          (assigned.parent_eq_source read member known).symm.trans fixed
        exact absurd produced (assigned.result_ne member (by simp [operands]))

variable (declared : Declared outlines)
include declared

/-- What a read outside of a window becomes is written after the edits, if no window strands. -/
theorem mem_results_of_read
    (none : ∀ hit ∈ hits outlines (found limits method),
      ¬ Strands method (hits outlines (found limits method)) hit)
    (there : method.instruction? label place = some reader) {operand : Var}
    (read : operand ∈ reader.operands)
    (apart : ∀ hit ∈ hits outlines (found limits method),
      (Usage.ofMethod method).root operand ∈ results (operationsOf method hit.2) →
        ¬ hit.2.Covers label place)
    (remains : reader.role = .refinement → ∀ other ∈ hits outlines (found limits method),
      ¬ other.2.Covers label place)
    (becomes : value = (Usage.ofMethod method).root operand ∨
      value = operand ∧ value ∉ gone outlines limits method) :
    value ∈ results (rewritten outlines limits method).instructions := by
  have acyclic := assigned.acyclic
  have reads : operand ∈ method.reads :=
    List.mem_flatMap.mpr ⟨reader, mem_instructions_iff.mpr ⟨label, place, there⟩, read⟩
  have roots : (Usage.ofMethod method).root value = (Usage.ofMethod method).root operand := by
    rcases becomes with rfl | ⟨rfl, _⟩
    · exact root_root valid acyclic operand
    · rfl
  have either : value ∈ results (rewritten outlines limits method).instructions ∨
      ∃ hit ∈ hits outlines (found limits method), value ∈ results (operationsOf method hit.2) ∧
        (Usage.ofMethod method).root value = value := by
    rcases becomes with rfl | ⟨rfl, present⟩
    · exact mem_results_or valid assigned (root_mem_reads valid acyclic reads)
        (.inr (parent_root valid acyclic operand))
    · exact mem_results_or valid assigned reads (.inl present)
  rcases either with written | ⟨hit, replaced, produced, fixed⟩
  · exact written
  · have listed := (mem_hits_iff.mp replaced).1
    rw [← fixed, roots] at produced
    have outside := apart hit replaced produced
    have last := lastResult_of_outside valid assigned listed there outside read produced
    cases void : hit.1.reference.prototype.returnType.isVoid with
    | true =>
      exact absurd ⟨void, label, place, reader, there, outside, remains, operand, read, produced⟩
        (none hit replaced)
    | false =>
      have result : (editOf method hit).call.result = some value := by
        rw [returnType_of_hit declared replaced] at void
        have same := result_eq_lastResult listed (labelled_of_valid valid) void
        rw [last, ← roots, fixed] at same
        simp [editOf, callFor, returnType_of_hit declared replaced, void, same]
      exact mem_results_iff.mpr ⟨_, call_mem_rewritten valid replaced, result⟩

/-- If no window strands, every value that is read after the edits is written. -/
theorem defined_rewritten (none : ∀ hit ∈ hits outlines (found limits method),
    ¬ Strands method (hits outlines (found limits method)) hit) :
    Defined (rewritten outlines limits method).instructions := by
  intro instruction member value read
  rcases mem_rewritten_cases valid member with
    rfl | ⟨label, place, original, there, kept, rfl⟩ | ⟨hit, replaced, rfl⟩
  · cases read
  · obtain ⟨operand, reads, rfl⟩ := List.mem_map.mp read
    have outside : ∀ other ∈ hits outlines (found limits method),
        ¬ other.2.Covers label place := by
      intro other replaced covers
      obtain ⟨constant, opcode⟩ := Instruction.role_eq_literal_iff.mp (kept other replaced covers)
      rw [assigned.literals original (mem_instructions_iff.mpr ⟨label, place, there⟩) constant
        opcode] at reads
      cases reads
    refine mem_results_of_read valid assigned declared none there reads
      (fun other replaced _ => outside other replaced) (fun _ => outside) ?_
    split
    · exact .inl rfl
    · rename_i present
      exact .inr ⟨rfl, by simpa using present⟩
  · obtain ⟨argument, passed, rfl⟩ := List.mem_map.mp read
    have listed := (mem_hits_iff.mp replaced).1
    obtain ⟨⟨place, reader, covers, there, operates, operand, reads, rfl⟩, absent⟩ :=
      of_mem_arguments valid assigned listed passed
    refine mem_results_of_read valid assigned declared none there reads ?_ ?_ (.inl ?_)
    · intro other otherReplaced produced otherCovers
      obtain rfl := eq_of_covers valid replaced otherReplaced covers otherCovers
      exact absent produced
    · intro refines
      simp [Instruction.isOperation, refines, Role.isOperation] at operates
    · split
      · exact root_root valid assigned.acyclic operand
      · rfl

omit declared

theorem covers_of_produced (read : value ∈ method.reads)
    (replaced : hit ∈ hits outlines (found limits method))
    (produced : value ∈ results (operationsOf method hit.2))
    (there : method.instruction? label place = some instruction)
    (writes : instruction.result = some value) :
    hit.2.Covers label place ∧ instruction.isOperation = true := by
  have listed := (mem_hits_iff.mp replaced).1
  have inside := mem_results_of_operation produced
  obtain ⟨writer, member, produces⟩ := mem_results_iff.mp produced
  obtain ⟨within, operates⟩ := List.mem_filter.mp member
  obtain ⟨other, _, found⟩ := mem_windowOf_iff.mp within
  obtain rfl := assigned.eq_writer read (mem_instructions_iff.mpr ⟨_, _, there⟩) writes
    (mem_instructions_iff.mpr ⟨_, _, found⟩) produces
  refine ⟨?_, operates⟩
  by_contra outside
  exact notMem_of_outside valid assigned listed there outside read writes inside

theorem eq_of_produced {other : Outline × Candidate} (read : value ∈ method.reads)
    (replaced : hit ∈ hits outlines (found limits method))
    (otherReplaced : other ∈ hits outlines (found limits method))
    (produced : value ∈ results (operationsOf method hit.2))
    (otherProduced : value ∈ results (operationsOf method other.2)) : hit = other := by
  obtain ⟨writer, member, writes⟩ := mem_results_iff.mp produced
  obtain ⟨place, covers, there⟩ := mem_windowOf_iff.mp (List.mem_filter.mp member).1
  exact eq_of_covers valid replaced otherReplaced covers
    (covers_of_produced valid assigned read otherReplaced otherProduced there writes).1

include declared

/-- What the outline of a window would have to return is written nowhere, if it returns nothing. -/
theorem notMem_results_of_void (read : value ∈ method.reads)
    (replaced : hit ∈ hits outlines (found limits method))
    (void : hit.1.reference.prototype.returnType.isVoid = true)
    (produced : value ∈ results (operationsOf method hit.2)) :
    value ∉ results (rewritten outlines limits method).instructions := by
  intro written
  obtain ⟨writer, member, writes⟩ := mem_results_iff.mp written
  rcases mem_rewritten_cases valid member with
    rfl | ⟨label, place, original, there, kept, rfl⟩ | ⟨other, otherReplaced, rfl⟩
  · cases writes
  · obtain ⟨covers, operates⟩ := covers_of_produced valid assigned read replaced produced there writes
    have literal := kept hit replaced covers
    simp [Instruction.isOperation, literal, Role.isOperation] at operates
  · have result : (callFor other.1 other.2 (windowOf method other.2)).result = some value := writes
    rw [callFor] at result
    dsimp only at result
    split at result
    · cases result
    · rename_i returns
      have listed := (mem_hits_iff.mp otherReplaced).1
      rw [returnType_of_hit declared otherReplaced, Bool.not_eq_true] at returns
      have last := (result_eq_lastResult listed (labelled_of_valid valid) returns).symm.trans result
      obtain rfl := eq_of_produced valid assigned read replaced otherReplaced produced
        (List.mem_of_getLast? last)
      rw [returnType_of_hit declared replaced, returns] at void
      cases void

omit declared

/-- If an instruction that no window covers reads a value, then the value that it stands for is read
after the edits, or the refinements that lead to it stay and the last of them reads it. -/
theorem exists_reader {root : Var} (stands : (Usage.ofMethod method).root value = root)
    (there : method.instruction? label place = some reader)
    (uncovered : ∀ hit ∈ hits outlines (found limits method), ¬ hit.2.Covers label place)
    (read : value ∈ reader.operands) :
    ∃ instruction ∈ (rewritten outlines limits method).instructions,
      root ∈ instruction.operands := by
  induction value using assigned.acyclic.induction generalizing label place reader with
  | fixed value still =>
    obtain rfl : value = root := (root_of_parent_eq valid still).symm.trans stands
    refine ⟨_, mem_rewritten_of_kept valid there fun hit replaced covers =>
      absurd covers (uncovered hit replaced), ?_⟩
    have moved := @mem_operands_redirect _ _ (gone outlines limits method) (.ofMethod method) read
    rwa [stands, ite_self] at moved
  | refined value moves inductionHypothesis =>
    by_cases missing : value ∈ gone outlines limits method
    · refine ⟨_, mem_rewritten_of_kept valid there fun hit replaced covers =>
        absurd covers (uncovered hit replaced), ?_⟩
      have moved := @mem_operands_redirect _ _ (gone outlines limits method) (.ofMethod method) read
      rwa [if_pos (by simpa using missing), stands] at moved
    · -- the refinement that writes the value is kept, since otherwise its result would be gone
      rcases parent_eq_self_or method value with same | ⟨refinement, member, refines⟩
      · exact absurd same moves
      obtain ⟨reads, writes⟩ := operands_of_refinement? refines
      obtain ⟨block, position, found⟩ := mem_instructions_iff.mp member
      refine inductionHypothesis ((root_parent valid assigned.acyclic value).trans stands) found ?_
        reads
      intro hit replaced covers
      refine missing (mem_gone valid replaced (mem_windowOf_iff.mpr
        ⟨position, ⟨rfl, covers.2⟩, covers.1 ▸ found⟩) ?_ writes)
      exact Instruction.role_of_refinement? (defect?_of_mem valid member) refines

theorem exists_reader_of_strands
    (replaced : hit ∈ hits outlines (found limits method))
    (there : method.instruction? label place = some reader) (outside : ¬ hit.2.Covers label place)
    (remains : reader.role = .refinement → ∀ other ∈ hits outlines (found limits method),
      ¬ other.2.Covers label place)
    (read : value ∈ reader.operands)
    (produced : (Usage.ofMethod method).root value ∈ results (operationsOf method hit.2)) :
    ∃ instruction ∈ (rewritten outlines limits method).instructions,
      (Usage.ofMethod method).root value ∈ instruction.operands := by
  by_cases uncovered : ∀ other ∈ hits outlines (found limits method), ¬ other.2.Covers label place
  · exact exists_reader valid assigned rfl there uncovered read
  · simp only [not_forall, not_not] at uncovered
    obtain ⟨other, otherReplaced, covers⟩ := uncovered
    have listed := (mem_hits_iff.mp otherReplaced).1
    have inside : reader ∈ windowOf method other.2 :=
      mem_windowOf_iff.mpr ⟨place, ⟨rfl, covers.2⟩, covers.1 ▸ there⟩
    have operation := operands_of_mem_windowOf other.2 valid assigned listed inside
      (fun refines => remains refines other otherReplaced covers) read
    rcases root_mem_of_operation valid assigned listed operation read with passed | inner
    · refine ⟨_, call_mem_rewritten valid otherReplaced, ?_⟩
      have moved := @mem_operands_redirect (editOf method other).call _ (gone outlines limits method)
        (.ofMethod method) passed
      rwa [root_root valid assigned.acyclic, ite_self] at moved
    · have reads : value ∈ method.reads :=
        List.mem_flatMap.mpr ⟨reader, mem_instructions_iff.mpr ⟨label, place, there⟩, read⟩
      have rootRead := root_mem_reads valid assigned.acyclic reads
      obtain rfl := eq_of_produced valid assigned rootRead replaced otherReplaced produced inner
      exact absurd covers outside

include declared

/-- Every value that is read after the edits is written, exactly if no window strands. -/
theorem defined_rewritten_iff : Defined (rewritten outlines limits method).instructions ↔
    ∀ hit ∈ hits outlines (found limits method),
      ¬ Strands method (hits outlines (found limits method)) hit := by
  refine ⟨?_, defined_rewritten valid assigned declared⟩
  rintro defined hit replaced
    ⟨void, label, place, reader, there, outside, remains, value, read, produced⟩
  obtain ⟨instruction, member, reads⟩ :=
    exists_reader_of_strands valid assigned replaced there outside remains read produced
  have rootRead := root_mem_reads valid assigned.acyclic (List.mem_flatMap.mpr
    ⟨reader, mem_instructions_iff.mpr ⟨label, place, there⟩, read⟩)
  exact notMem_results_of_void valid assigned declared rootRead replaced void produced
    (defined instruction member _ reads)

omit declared

/-- A window that has nothing left to be read strands only a refinement right after it, which the
window took before it was trimmed. -/
theorem exists_refinement_of_strands (replaced : hit ∈ hits outlines (found limits method))
    (nothing : hit.2.result = none)
    (strands : Strands method (hits outlines (found limits method)) hit) :
    ∃ refinement ∈ trail method hit.2, refinement.role = .refinement ∧
      ∃ operand ∈ refinement.operands,
        (Usage.ofMethod method).root operand ∈ results (operationsOf method hit.2) := by
  obtain ⟨_, label, place, reader, there, outside, _, value, read, produced⟩ := strands
  have listed := (mem_hits_iff.mp replaced).1
  have behind := mem_trail_of_outside valid assigned listed nothing there outside read produced
  refine ⟨reader, behind, ?_, value, read, produced⟩
  rcases Instruction.isTransparent_cases (isTransparent_of_mem_trail behind) with
    literal | refines
  · obtain ⟨constant, opcode⟩ := Instruction.role_eq_literal_iff.mp literal
    rw [assigned.literals reader (mem_instructions_iff.mpr ⟨label, place, there⟩) constant
      opcode] at read
    cases read
  · exact refines

end

variable {options : Options} {program : Program} {selection : List MethodIndex}
  {made : List (Outline × Method)} {returned : Option Holder} {final : Pipeline}

/-- The windows that a run replaces in a method. -/
def replacedIn (outlines : List Outline) (limits : Limits) (selection : List MethodIndex)
    (method : Method) : List (Outline × Candidate) :=
  if isChosen selection method then hits outlines (found limits method) else []

theorem defined_outcome_iff (valid : method.defect? = none) (assigned : method.SingleAssignment)
    (declared : Declared outlines) :
    Defined (outcome outlines limits selection method).instructions ↔
      ∀ hit ∈ replacedIn outlines limits selection method,
        ¬ Strands method (replacedIn outlines limits selection method) hit := by
  unfold outcome replacedIn
  split
  · exact defined_rewritten_iff valid assigned declared
  · exact iff_of_true assigned.defined (by simp)

theorem of_builds (builds : Builds options program made) :
    Declared (made.map (·.1)) ∧ ∀ method ∈ made.map (·.2), Defined method.instructions := by
  have known : ∀ result ∈ made, result.1.reference.prototype.returnType =
      result.1.template.returnType ∧ Defined result.2.instructions := by
    intro result member
    obtain ⟨place, found⟩ := List.mem_iff_getElem?.mp member
    obtain ⟨entry, _, making⟩ := (Holder.made_of_outlines builds place).1 result found
    refine ⟨?_, (of_body_eq_ok making.body).2.2.2.1⟩
    rw [making.outline]
  constructor
  · intro outline member
    obtain ⟨result, listed, rfl⟩ := List.mem_map.mp member
    exact (known result listed).1
  · intro method member
    obtain ⟨result, listed, rfl⟩ := List.mem_map.mp member
    exact (known result listed).2

/-- The methods after a run: those of the program, and the outlines that the run has made. -/
theorem methods_of_run (sound : AllSound options program)
    (done : run.run (start options program) = .ok returned final) :
    Declared final.outlines ∧ ∃ added : List Method, (∀ method ∈ added, Defined method.instructions) ∧
      final.program.methods =
        program.methods.map (outcome final.outlines options.limits (selectionOf options program)) ++
          added := by
  cases returned with
  | none =>
    obtain ⟨unchanged, noOutlines, _⟩ := unchanged_of_run sound done
    rw [unchanged, noOutlines]
    refine ⟨by simp [Declared], [], by simp, ?_⟩
    rw [outcome_nil, List.map_id, List.append_nil]
  | some holder =>
    obtain ⟨made, _, outlined⟩ := outlined_of_run sound done
    obtain ⟨declared, defined⟩ := of_builds outlined.builds
    rw [outlined.outlines]
    exact ⟨declared, made.map (·.2), defined, outlined.methods⟩

/-- Every value that is read after a run is written, exactly if no window that the run replaces
strands: its outline returns nothing, although an instruction outside of the window reads one of
its results. -/
theorem reads_defined_iff {options : Options} {program : Program} {returned : Option Holder}
    {final : Pipeline} (valid : program.complaint? = none)
    (assigned : ∀ method ∈ program.methods, method.SingleAssignment)
    (done : run.run (start options program) = .ok returned final) :
    (∀ method ∈ final.program.methods, Defined method.instructions) ↔
      ∀ method ∈ program.methods,
        ∀ hit ∈ replacedIn final.outlines options.limits (selectionOf options program) method,
          ¬ Strands method
            (replacedIn final.outlines options.limits (selectionOf options program) method) hit := by
  have sound : AllSound options program := fun method member _ =>
    AllocatesBare.sound (assigned method member).allocations options.limits
  obtain ⟨declared, added, defined, methods⟩ := methods_of_run sound done
  rw [methods, List.forall_mem_append, List.forall_mem_map]
  rw [and_iff_left defined]
  refine forall_congr' fun method => forall_congr' fun member => ?_
  exact defined_outcome_iff (valid_of_mem valid member) (assigned method member) declared

/-- The sum is taken away, and the refinement after it still reads it. -/
theorem exists_run_reads_undefined : ∃ returned final,
    run.run (start eager ⟨[refinesSum]⟩) = .ok returned final ∧
      ¬ ∀ method ∈ final.program.methods, Defined method.instructions := by
  have returns : succeeds (fun _ final => ((replacedIn final.outlines eager.limits
        (selectionOf eager ⟨[refinesSum]⟩) refinesSum).map fun hit =>
          (hit.1.reference.prototype.returnType.isVoid, hit.2.block, hit.2.start, hit.2.stop,
            results (operationsOf refinesSum hit.2))) == [(true, 0, 2, 3, [2])])
      (run.run (start eager ⟨[refinesSum]⟩)) = true := by decide +kernel
  have assigned : refinesSum.SingleAssignment :=
    ⟨⟨refinesSum.blocks, .refl _, by decide⟩, by simp [refinesSum, Method.instructions],
      by simp [refinesSum, Method.instructions]⟩
  obtain ⟨returned, final, done, checked⟩ := exists_of_succeeds returns
  refine ⟨returned, final, done, fun defined => ?_⟩
  have stranded := (reads_defined_iff (by decide) (by simpa using assigned) done).mp defined
    refinesSum List.mem_cons_self
  obtain ⟨hit, only, same⟩ := List.map_eq_singleton_iff.mp (beq_iff_eq.mp checked)
  simp only [Prod.mk.injEq] at same
  obtain ⟨void, block, start, stop, produced⟩ := same
  rw [only] at stranded
  refine stranded hit List.mem_cons_self ⟨void, 0, 3, ⟨.refine, [2], some 3, none⟩, rfl, ?_, ?_, 2,
    List.mem_cons_self, ?_⟩
  · simp [Candidate.Covers, stop]
  · simp [Candidate.Covers, stop]
  · rw [produced]
    decide

end Pipeline

end Outlining
