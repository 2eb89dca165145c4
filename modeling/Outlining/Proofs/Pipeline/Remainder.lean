import Outlining.Proofs.Pipeline.Rescan
import Outlining.Proofs.Window.Coincidence

namespace Outlining.Pipeline

open Outlining.Bytecode Outlining.Rewriting Outlining.Template Outlining.Window

variable {outlines : List Outline} {limits : Limits} {method : Method} {block : Block}
  {blocks : List Block}

/-- A block after the rewriting, in one piece. -/
def reworkedBlock (outlines : List Outline) (limits : Limits) (method : Method) (block : Block) :
    List Instruction :=
  spliced 0 (editsOf (editsFor outlines limits method) block.label) block.instructions

/-- The mirror of a rewritten method for an order of its blocks. -/
def rewrittenMirror (outlines : List Outline) (limits : Limits) (method : Method)
    (blocks : List Block) : Method :=
  mirror outlines limits method (blocks.flatMap (reworkedBlock outlines limits method))

/-- Whether the growth of an earlier window awaits no window that is replaced. -/
def Unawaited (outlines : List Outline) (limits : Limits) (method : Method) : Prop :=
  ∀ hit ∈ hits outlines (found limits method), ∀ block,
    method.blocks[hit.2.block]? = some block →
      ¬ Awaits (.ofMethod method limits) (block.instructions.take hit.2.start)
        (block.instructions.drop hit.2.start)

/-- A way to gather data from the instructions of a rewritten method, one by one. -/
theorem gathers_flatMap {α : Type} {gather : Instruction → List α}
    (change : Instruction → Instruction) (jumps : gather (change jump) = []) (edits : List Edit) :
    Gathers (fun instructions => (instructions.map change).flatMap gather) edits where
  nothing := rfl
  jump := by
    intro part
    simp [jumps]
  call := by
    intro edit _ part rest
    simp

theorem moved_jump : moved outlines limits method jump = jump := rfl

/-- The templates that a scan finds are gathered from the parts of blocks. -/
theorem gathers_sketches (scope : Scope) :
    Gathers (fun instructions => sketches scope
      (instructions.map (moved outlines limits method))) (editsFor outlines limits method) where
  nothing := rfl
  jump := by
    intro part
    have unsupported : ∀ window : Window, window.admits scope jump = false := by
      intro window
      rw [Bool.eq_false_iff]
      intro admitted
      cases (admits_iff.mp admitted).operates
    have blocks : Blocks scope [jump] := blocks_cons rfl unsupported []
    rw [List.map_append, List.map_singleton, moved_jump, sketches_append_of_blocks blocks,
      sketches_cons_of_blocks blocks, sketches_nil, List.append_nil]
  call := by
    intro edit member part rest
    obtain ⟨hit, _, rfl⟩ := List.mem_map.mp member
    rw [List.map_append, List.map_append, List.map_cons, List.map_singleton,
      sketches_append_of_blocks (blocks_call scope hit _),
      sketches_append_of_blocks (blocks_call scope hit []),
      sketches_cons_of_blocks (blocks_call scope hit _),
      sketches_cons_of_blocks (blocks_call scope hit []), sketches_nil, List.append_nil]

theorem perm_rewritten {α : Type} {gather : List Instruction → List α}
    (gathers : Gathers (fun instructions => gather
      (instructions.map (moved outlines limits method))) (editsFor outlines limits method)) :
    ((rewritten outlines limits method).blocks.flatMap (gather ·.instructions)).Perm
      (method.blocks.flatMap fun block =>
        gather ((reworkedBlock outlines limits method block).map
          (moved outlines limits method))) := by
  rw [rewritten_eq_apply]
  exact perm_apply gathers

theorem types_rewritten : (rewritten outlines limits method).types = method.types := by
  rw [rewritten_eq]

section Valid

variable (valid : method.defect? = none)
include valid

theorem spliced_reworkedBlock (present : block ∈ method.blocks) :
    Spliced (Located outlines limits method) 0 block.instructions
      ((hits outlines (foundIn limits method block)).map (editOf method))
      (reworkedBlock outlines limits method block) := by
  obtain ⟨instructions, spliced⟩ := @exists_located outlines limits method block valid present
  rw [reworkedBlock, editsOf_editsFor (labelled_of_valid valid) present, spliced.spliced_eq]
  exact spliced

theorem reworked_blocks (listed : blocks ⊆ method.blocks) :
    Reworked outlines limits method (blocks.flatMap (·.instructions))
      (blocks.flatMap (reworkedBlock outlines limits method)) :=
  .flatMap fun _ member => .of_spliced (spliced_reworkedBlock valid (listed member))

end Valid

section Ordered

variable (arranged : Arranged method (blocks.flatMap (·.instructions)))
  (reordered : blocks.Perm method.blocks)
include arranged reordered

/-- A second scan finds in a block the windows that were not replaced. -/
theorem sketches_reworkedBlock (readers : RefinesForReaders outlines limits method)
    (unawaited : Unawaited outlines limits method) (present : block ∈ method.blocks) :
    sketches (.ofMethod (rewrittenMirror outlines limits method blocks) limits)
      ((reworkedBlock outlines limits method block).map (moved outlines limits method)) =
    ((scanBlock (.ofMethod method limits) block).map sketch).filter (isSpared outlines) := by
  obtain ⟨earlier, later, split⟩ := List.append_of_mem (reordered.mem_iff.mpr present)
  have listed := reordered.subset
  have first : earlier ⊆ method.blocks := fun other member => listed (by simp [split, member])
  have last : later ⊆ method.blocks := fun other member => listed (by simp [split, member])
  rw [split, List.flatMap_append, List.flatMap_cons] at arranged
  rw [rewrittenMirror, split, List.flatMap_append, List.flatMap_cons]
  apply sketches_mirror readers arranged (reworked_blocks arranged.valid first)
    (reworked_blocks arranged.valid last) (spliced_reworkedBlock arranged.valid present)
  intro hit member plain tail parts starts
  obtain ⟨inside, known⟩ := mem_hits_iff.mp member
  obtain ⟨inside, here⟩ := (mem_foundIn_iff arranged.valid present).mp inside
  have there := (labelled_of_valid arranged.valid).getElem? present
  rw [← here] at there
  have apart := unawaited hit (mem_hits_iff.mpr ⟨inside, known⟩) block there
  rw [Nat.zero_add] at starts
  rwa [starts, parts, List.take_left, List.drop_left] at apart

omit arranged in
/-- What is gathered one by one from a rewritten method and from its mirror is the same. -/
theorem perm_mirror {α : Type} (gather : Instruction → List α) (jumps : gather jump = [])
    (fillers : ∀ value, gather (filler value) = []) :
    ((rewritten outlines limits method).instructions.flatMap gather).Perm
      ((rewrittenMirror outlines limits method blocks).instructions.flatMap gather) := by
  have parts := @perm_rewritten outlines limits method _ (·.flatMap gather)
    (gathers_flatMap (moved outlines limits method) jumps _)
  have none (values : List Var) : (values.map filler).flatMap gather = [] := by
    simp [List.flatMap_map, fillers]
  rw [rewrittenMirror, mirror, Method.instructions_completion, completed, List.flatMap_append, none,
    List.nil_append, Method.instructions, List.flatMap_assoc, List.map_flatMap, List.flatMap_assoc]
  exact parts.trans (reordered.symm.flatMap_right _)

omit arranged in
theorem reads_rewritten (value : Var) :
    (Usage.ofMethod (rewritten outlines limits method)).reads value =
      (Usage.ofMethod (rewrittenMirror outlines limits method blocks)).reads value := by
  have same : (rewritten outlines limits method).reads.count value =
      (rewrittenMirror outlines limits method blocks).reads.count value :=
    (perm_mirror reordered (·.operands) rfl fun _ => rfl).count_eq value
  have size : (rewrittenMirror outlines limits method blocks).types.length =
      (rewritten outlines limits method).types.length := by
    rw [types_rewritten]
    rfl
  rw [Usage.reads_ofMethod, Usage.reads_ofMethod, same, size]

theorem root_rewritten {value : Var}
    (read : value ∈ (rewrittenMirror outlines limits method blocks).reads) :
    (Usage.ofMethod (rewritten outlines limits method)).root value =
      (Usage.ofMethod (rewrittenMirror outlines limits method blocks)).root value := by
  have ordered := arranged_mirror arranged
    (@reworked_blocks outlines limits method _ arranged.valid reordered.subset)
  have refinements (method : Method) :
      method.refinements = method.instructions.flatMap (·.refinement?.toList) :=
    List.filterMap_eq_flatMap_toList _ _
  refine ordered.assigned.root_congr ordered.valid types_rewritten (fun pair => ?_) read
  rw [refinements, refinements]
  exact (perm_mirror reordered _ rfl fun _ => rfl).mem_iff

/-- A rewritten method and its mirror have the same windows in what both read. -/
theorem coincide_mirror (present : block ∈ method.blocks) :
    Coincide (.ofMethod (rewrittenMirror outlines limits method blocks) limits)
      (.ofMethod (rewritten outlines limits method) limits)
      ((reworkedBlock outlines limits method block).map (moved outlines limits method)) where
  agrees := ⟨types_rewritten, rfl⟩
  reads := reads_rewritten reordered
  roots := by
    intro instruction member operand read
    have listed : instruction ∈ (rewrittenMirror outlines limits method blocks).instructions := by
      rw [rewrittenMirror, mirror, Method.instructions_completion]
      obtain ⟨before, inside, rfl⟩ := List.mem_map.mp member
      exact mem_completed_iff.mpr (.inr (List.mem_map_of_mem
        (List.mem_flatMap.mpr ⟨block, reordered.mem_iff.mpr present, inside⟩)))
    exact root_rewritten arranged reordered (List.mem_flatMap.mpr ⟨instruction, listed, read⟩)

end Ordered

/-- A second scan of a method finds the windows that were not replaced. -/
theorem perm_scan_rewritten (valid : method.defect? = none) (assigned : method.SingleAssignment)
    (readers : RefinesForReaders outlines limits method)
    (unawaited : Unawaited outlines limits method) :
    (((rewritten outlines limits method).scan limits).map sketch).Perm
      (((method.scan limits).map sketch).filter (isSpared outlines)) := by
  obtain ⟨blocks, reordered, body⟩ := assigned.ordered
  have arranged : Arranged method (blocks.flatMap (·.instructions)) :=
    ⟨valid, assigned, reordered.flatMap_right _, body⟩
  have whole (method : Method) : (method.scan limits).map sketch =
      method.blocks.flatMap fun block =>
        (scanBlock (.ofMethod method limits) block).map sketch := by
    rw [Method.scan, List.map_flatMap]
  have parts := perm_rewritten (@gathers_sketches outlines limits method
    (.ofMethod (rewritten outlines limits method) limits))
  have each : ∀ block ∈ method.blocks,
      sketches (.ofMethod (rewritten outlines limits method) limits)
        ((reworkedBlock outlines limits method block).map (moved outlines limits method)) =
      ((scanBlock (.ofMethod method limits) block).map sketch).filter (isSpared outlines) := by
    intro block present
    rw [(coincide_mirror arranged reordered present).sketches,
      sketches_reworkedBlock arranged reordered readers unawaited present]
  rw [whole, whole, List.filter_flatMap, ← List.flatMap_congr each]
  refine List.Perm.trans (.of_eq ?_) parts
  apply List.flatMap_congr
  intro block _
  exact map_sketch_scanAhead _ _ _ 0 _

end Outlining.Pipeline
