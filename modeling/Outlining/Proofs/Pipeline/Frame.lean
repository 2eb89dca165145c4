import Outlining.Proofs.Pipeline.Flow

/-! Rewriting puts one call in place of each window and jumps between the parts of divided blocks.
All instructions that survive stay in their order and as they are, but for operands that name a
refinement that was removed: these name its alias root instead. Since refinements form no cycle, no
root is the result of a refinement, so that one round of replacements is enough. -/
namespace Outlining.Pipeline

open Outlining.Bytecode Outlining.Rewriting Outlining.Window

variable {outlines : List Outline} {limits : Limits} {method result : Method} {block : Block}
  {pipeline final : Pipeline} {instruction : Instruction} {value : Var}

/-- Whether a refinement in a replaced window writes a value. -/
def Removed (outlines : List Outline) (limits : Limits) (method : Method) (value : Var) : Prop :=
  ∃ hit ∈ hits outlines (found limits method), ∃ instruction ∈ windowOf method hit.2,
    instruction.role = .refinement ∧ instruction.result = some value

/-- What an operand becomes. -/
def Moves (outlines : List Outline) (limits : Limits) (method : Method) (before after : Var) :
    Prop :=
  (¬ Removed outlines limits method before ∧ after = before) ∨
    (Removed outlines limits method before ∧ after = (Usage.ofMethod method).root before)

/-- What stands in a rewritten method for what a block has become. -/
inductive Stands (outlines : List Outline) (limits : Limits) (method : Method) :
    Entry → Instruction → Prop where
  | kept (instruction : Instruction) (place : Nat) {operands : List Var}
      (moved : instruction.operands.Forall₂ (Moves outlines limits method) operands) :
      Stands outlines limits method (.kept (instruction, place))
        { instruction with operands := operands }
  | call (edit : Edit) : Stands outlines limits method (.call edit) edit.call

/-- What the blocks of a rewritten method have of a block that it had before, where the labels are
those of the blocks split off. -/
structure Framed (outlines : List Outline) (limits : Limits) (method : Method)
    (blocks : List Block) (block : Block) (labels : List Label) : Prop where
  /-- All instructions that survive are kept, in their order. -/
  survivors : (entriesFor outlines limits method block).filterMap Entry.kept? =
    survivors (editsOf (editsFor outlines limits method) block.label) 0 block.instructions
  /-- There is one call for each window. -/
  calls : (entriesFor outlines limits method block).filterMap Entry.call? =
    editsOf (editsFor outlines limits method) block.label
  /-- But for the jumps between the parts of the block there is nothing else. -/
  parts : ∃ parts : List (List Instruction),
    Chain blocks block.handlers block.successors block.label labels parts ∧
    (entriesFor outlines limits method block).Forall₂ (Stands outlines limits method) parts.flatten

section Valid

variable (valid : method.defect? = none)
include valid

theorem mem_gone_iff (ends : ∀ hit ∈ hits outlines (found limits method), Replaceable method hit) :
    value ∈ gone outlines limits method ↔ Removed outlines limits method value := by
  rw [gone_eq valid ends, refinedBy, List.mem_filterMap]
  constructor
  · rintro ⟨instruction, member, writes⟩
    obtain ⟨inside, refines⟩ := List.mem_filter.mp member
    obtain ⟨hit, listed, inside⟩ := List.mem_flatMap.mp inside
    exact ⟨hit, listed, instruction, inside, beq_iff_eq.mp refines, writes⟩
  · rintro ⟨hit, listed, instruction, inside, refines, writes⟩
    exact ⟨instruction, List.mem_filter.mpr
      ⟨List.mem_flatMap.mpr ⟨hit, listed, inside⟩, beq_iff_eq.mpr refines⟩, writes⟩

theorem not_removed_root (grounded : Grounded method) (value : Var) :
    ¬ Removed outlines limits method ((Usage.ofMethod method).root value) := by
  rintro ⟨hit, listed, instruction, inside, refines, writes⟩
  obtain ⟨place, _, found⟩ := mem_windowOf_iff.mp inside
  have member := mem_instructions_iff.mpr ⟨_, _, found⟩
  obtain ⟨opcode, source, _, operands, _⟩ := Instruction.role_eq_refinement_iff.mp refines
  have refined : instruction.refinement? = some ((Usage.ofMethod method).root value, source) := by
    simp only [Instruction.refinement?, opcode, operands, writes]
  exact grounded.root_ne valid member refined value rfl

/-- A call passes roots only. -/
theorem exists_root_of_call {edit : Edit} (member : edit ∈ editsFor outlines limits method)
    (passed : value ∈ edit.call.operands) :
    ∃ operand, value = (Usage.ofMethod method).root operand := by
  obtain ⟨hit, listed, rfl⟩ := List.mem_map.mp member
  obtain ⟨_, _, _, _, _, _, _, _, _, closed, _⟩ :=
    windowOf_eq (labelled_of_valid valid) (mem_hits_iff.mp listed).1
  have passed : value ∈ hit.2.arguments := passed
  rw [closed.arguments_eq] at passed
  obtain ⟨argument, bound, rfl⟩ := List.mem_map.mp passed
  obtain ⟨_, _, operand, _, same⟩ := closed.grown.exists_operand bound
  exact ⟨operand, same⟩

variable (grounded : Grounded method)
  (ends : ∀ hit ∈ hits outlines (found limits method), Replaceable method hit)
include grounded ends

theorem not_removed_of_redirect (read : value ∈
    (redirect (gone outlines limits method) (.ofMethod method) instruction).operands) :
    ¬ Removed outlines limits method value := by
  obtain ⟨operand, _, rfl⟩ := List.mem_map.mp read
  split
  · exact not_removed_root valid grounded operand
  · rename_i stays
    rw [← mem_gone_iff valid ends]
    simpa using stays

theorem stands_redirect {entry : Entry}
    (edited : ∀ edit, entry.call? = some edit → edit ∈ editsFor outlines limits method) :
    Stands outlines limits method entry
      (redirect (gone outlines limits method) (.ofMethod method) entry.instruction) := by
  cases entry with
  | kept survivor =>
    refine .kept survivor.1 survivor.2 (List.forall₂_map_right_iff.mpr (List.forall₂_same.mpr ?_))
    intro operand _
    split
    · rename_i missing
      exact .inr ⟨(mem_gone_iff valid ends).mp (by simpa using missing), rfl⟩
    · rename_i stays
      refine .inl ⟨?_, rfl⟩
      rw [← mem_gone_iff valid ends]
      simpa using stays
  | call edit =>
    -- none of the roots that a call passes is replaced
    have stays : ∀ value ∈ edit.call.operands, value ∉ gone outlines limits method := by
      intro value passed
      obtain ⟨operand, rfl⟩ := exists_root_of_call valid (edited edit rfl) passed
      exact fun missing =>
        not_removed_root valid grounded operand ((mem_gone_iff valid ends).mp missing)
    have same : redirect (gone outlines limits method) (.ofMethod method) edit.call =
        edit.call := by
      rw [redirect, List.map_congr_left (g := id), List.map_id]
      intro value passed
      rw [if_neg (by simpa using stays value passed), id]
    rw [Entry.instruction, same]
    exact .call edit

omit grounded ends in
theorem mem_editsFor_of_call {entry : Entry} {edit : Edit} (present : block ∈ method.blocks)
    (member : entry ∈ entriesFor outlines limits method block) (called : entry.call? = some edit) :
    edit ∈ editsFor outlines limits method := by
  obtain ⟨_, spliced⟩ := exists_spliced_editsOf valid outlines limits present
  have listed : edit ∈ (entriesFor outlines limits method block).filterMap Entry.call? :=
    List.mem_filterMap.mpr ⟨entry, member, called⟩
  rw [entriesFor, spliced.filterMap_call? (spans_replaced outlines limits method)] at listed
  exact (List.mem_filter.mp listed).1

end Valid

/-- Rewriting touches nothing but the windows: what survives stays in its order and as it is, but
for operands that named a refinement removed with some window, which no instruction reads any more;
and what is added are one call for each window and the jumps between parts of blocks. -/
theorem framed_of_run_rewriteMethod (valid : method.defect? = none) (grounded : Grounded method)
    (done : (rewriteMethod method).run pipeline = .ok result final) :
    result = { method with blocks := result.blocks } ∧
    (∃ fresh : List (List Label),
      List.range method.blocks.length ++ fresh.flatten = List.range result.blocks.length ∧
      method.blocks.Forall₂
        (Framed pipeline.outlines pipeline.options.limits method result.blocks) fresh) ∧
    ∀ instruction ∈ result.instructions, ∀ value ∈ instruction.operands,
      ¬ Removed pipeline.outlines pipeline.options.limits method value := by
  obtain ⟨_, _, ends, rfl, _⟩ :=
    (run_rewriteMethod_eq_ok_iff (sound_of_run_rewriteMethod done)).mp done
  obtain ⟨fresh, known, chains⟩ :=
    exists_chains_rewritten valid pipeline.outlines pipeline.options.limits
  refine ⟨rewritten_eq .., ⟨fresh, known, List.forall₂_iff_zip.mpr ⟨chains.length_eq, ?_⟩⟩, ?_⟩
  · intro block labels listed
    have present := (List.of_mem_zip listed).1
    obtain ⟨_, spliced⟩ := exists_spliced_editsOf valid pipeline.outlines
      pipeline.options.limits present
    have spans := spans_replaced pipeline.outlines pipeline.options.limits method
    refine ⟨spliced.filterMap_kept? spans (ends_replaced _ _ _), spliced.filterMap_call? spans, _,
      (List.forall₂_iff_zip.mp chains).2 listed, ?_⟩
    rw [flatten_rendered]
    exact List.forall₂_map_right_iff.mpr (List.forall₂_same.mpr fun entry member =>
      stands_redirect valid grounded ends fun edit => mem_editsFor_of_call valid present member)
  · intro instruction member value read
    rcases mem_rewritten_cases valid member with
      rfl | ⟨_, _, _, _, _, rfl⟩ | ⟨_, _, rfl⟩
    · cases read
    · exact not_removed_of_redirect valid grounded ends read
    · exact not_removed_of_redirect valid grounded ends read

/-- A method that reads a refinement both inside of a window and behind it. -/
def scalesRefined : Method where
  index := 0
  reference := ⟨⟨"LA;"⟩, "m", ⟨.int, [.int, .int]⟩⟩
  types := List.replicate 5 (.number .int)
  blocks := [⟨0, [⟨.argument 0, [], some 0, none⟩, ⟨.argument 1, [], some 1, none⟩,
    ⟨.arithmetic .add .int, [0, 1], some 2, none⟩, ⟨.refine, [0], some 3, none⟩,
    ⟨.arithmetic .mul .int, [2, 3], some 4, none⟩, ⟨.other "nop", [3], none, none⟩,
    ⟨.ret, [4], none, none⟩], [], []⟩]
  synthetic := false

/-- A pipeline with an outline for the window. -/
def refinedRecorded : Pipeline :=
  left ((prepare ⟨[scalesRefined]⟩ [0] .object 1).run (start eager ⟨[]⟩))

/-- Behind the window, what was refined is read instead. -/
theorem framed_of_scalesRefined : ∃ result final,
    (rewriteMethod scalesRefined).run refinedRecorded = .ok result final ∧
      result.instructions.map (·.operands) = [[], [], [0, 1], [0], [4]] ∧
      (∃ fresh : List (List Label), scalesRefined.blocks.Forall₂
        (Framed refinedRecorded.outlines refinedRecorded.options.limits scalesRefined
          result.blocks) fresh) ∧
      ∀ instruction ∈ result.instructions, ∀ value ∈ instruction.operands,
        ¬ Removed refinedRecorded.outlines refinedRecorded.options.limits scalesRefined value := by
  have returns : succeeds (fun result _ =>
      result.instructions.map (·.operands) == [[], [], [0, 1], [0], [4]])
      ((rewriteMethod scalesRefined).run refinedRecorded) = true := by decide +kernel
  have descends : ∀ instruction ∈ scalesRefined.instructions,
      ∀ refined ∈ instruction.refinement?, scalesRefined.parent refined.1 < refined.1 := by decide
  have grounded : Grounded scalesRefined :=
    ⟨id, fun instruction member _ _ refines => descends instruction member _ refines⟩
  obtain ⟨result, final, done, checked⟩ := exists_of_succeeds returns
  obtain ⟨_, ⟨fresh, _, framed⟩, unread⟩ :=
    framed_of_run_rewriteMethod (by decide) grounded done
  exact ⟨result, final, done, beq_iff_eq.mp checked, ⟨fresh, framed⟩, unread⟩

end Outlining.Pipeline
