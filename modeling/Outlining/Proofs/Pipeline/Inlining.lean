import Outlining.Proofs.Bytecode.Assignment
import Outlining.Proofs.Pipeline.Naming
import Outlining.Proofs.Pipeline.Replacement
import Outlining.Proofs.Window.Replay

/-! After a run, every block of the program still does what it did before, once the parts that it
was split into are joined and the calls of outlines are replaced by what the outlines do. -/
namespace Outlining

open Outlining.Bytecode Outlining.Rewriting Outlining.Template Outlining.Window

/-- Some instructions, and others that do the same if the calls of the given outlines are replaced
by their bodies. Operands are compared by their alias roots. -/
inductive Inlined (methods : List Method) (root : Var → Var) :
    List Instruction → List Instruction → Prop where
  | done : Inlined methods root [] []
  | keep {instruction copy : Instruction} {original rewritten : List Instruction}
      (opcode : copy.opcode = instruction.opcode) (result : copy.result = instruction.result)
      (line : copy.line = instruction.line)
      (operands : copy.operands.map root = instruction.operands.map root)
      (rest : Inlined methods root original rewritten) :
      Inlined methods root (instruction :: original) (copy :: rewritten)
  | call {call : Instruction} {outline : Method} {window original rewritten : List Instruction}
      (opcode : call.opcode = .call .static outline.reference false)
      (named : methods.find? (·.reference == outline.reference) = some outline)
      (unfolds : Unfolds root outline call window)
      (rest : Inlined methods root original rewritten) :
      Inlined methods root (window ++ original) (call :: rewritten)

/-- Every block of a rewritten method, joined with the blocks split off from it, does what the block
did in the original once the calls of the given outlines are inlined. -/
def Recovers (methods : List Method) (original rewritten : Method) : Prop :=
  ∀ (label : Label) (block : Block), original.blocks[label]? = some block →
    ∃ (first : Block) (instructions : List Instruction), rewritten.blocks[label]? = some first ∧
      Rejoined rewritten.blocks original.blocks.length first instructions ∧
      Inlined methods (Usage.ofMethod original).root
        (block.instructions.filter (!·.isTransparent)) (instructions.filter (!·.isTransparent))

namespace Pipeline

variable {options : Options} {program : Program} {holder : Holder} {final : Pipeline}
  {method : Method} {limits : Limits} {made : List (Outline × Method)}
  {instruction : Instruction} {original copies : List Instruction}

theorem inlined_refl (methods : List Method) (root : Var → Var) (instructions : List Instruction) :
    Inlined methods root instructions instructions := by
  induction instructions with
  | nil => exact .done
  | cons instruction instructions inductionHypothesis => exact .keep rfl rfl rfl rfl inductionHypothesis

theorem isTransparent_redirect (gone : List Var) (usage : Usage) (instruction : Instruction) :
    (redirect gone usage instruction).isTransparent = instruction.isTransparent := by
  simp [Instruction.isTransparent, Instruction.role, redirect]

theorem map_root_redirect {usage : Usage}
    (idempotent : ∀ value, usage.root (usage.root value) = usage.root value) (gone : List Var)
    (instruction : Instruction) :
    (redirect gone usage instruction).operands.map usage.root =
      instruction.operands.map usage.root := by
  rw [redirect, List.map_map]
  refine List.map_congr_left fun value _ => ?_
  simp only [Function.comp_apply]
  split
  · exact idempotent value
  · rfl

theorem find?_of_builds (builds : Builds options program made) {result : Outline × Method}
    (member : result ∈ made) :
    result.2.reference = result.1.reference ∧
      (made.map (·.2)).find? (·.reference == result.2.reference) = some result.2 := by
  obtain ⟨place, found⟩ := List.mem_iff_getElem?.mp member
  refine ⟨(Holder.reference_of_outlines builds found).1, ?_⟩
  have distinct := Holder.nodup_references builds
  cases first : (made.map (·.2)).find? (·.reference == result.2.reference) with
  | none =>
    have absent := List.find?_eq_none.mp first result.2 (List.mem_map_of_mem member)
    simp at absent
  | some method =>
    have same : method.reference = result.2.reference := by simpa using List.find?_some first
    exact congrArg some (List.inj_on_of_nodup_map distinct (List.mem_of_find?_eq_some first)
      (List.mem_map_of_mem member) same)

/-- The call in place of a window unfolds to the operations of the window. -/
theorem unfolds_of_replaced (idempotent : ∀ value, (Usage.ofMethod method).root
      ((Usage.ofMethod method).root value) = (Usage.ofMethod method).root value)
    (typed : method.IsTyped) (builds : Builds options program made)
    {window : List Instruction} {edit : Edit}
    (replaced : Replaced (made.map (·.1)) limits method window edit) (gone : List Var) :
    ∃ outline, (redirect gone (.ofMethod method) edit.call).opcode =
        .call .static outline.reference false ∧
      (made.map (·.2)).find? (·.reference == outline.reference) = some outline ∧
      Unfolds (Usage.ofMethod method).root outline (redirect gone (.ofMethod method) edit.call)
        (window.filter (!·.isTransparent)) := by
  obtain ⟨hit, label, start, taken, state, known, closed, _, inside, rfl, rfl⟩ := replaced
  obtain ⟨result, listed, same⟩ := List.mem_map.mp (List.mem_of_find?_eq_some known)
  obtain ⟨place, found⟩ := List.mem_iff_getElem?.mp listed
  obtain ⟨entry, _, making⟩ := (Holder.made_of_outlines builds place).1 result found
  have template : hit.1.template = hit.2.template := by simpa using List.find?_some known
  rw [← same] at template
  obtain ⟨reference, named⟩ := find?_of_builds builds listed
  have written := making.body
  have entries : entry.2 = hit.2.template := by
    rw [← template, making.outline]
  have returnType : result.1.reference.prototype.returnType = hit.2.template.returnType := by
    rw [← entries, making.outline]
  rw [entries] at written
  refine ⟨result.2, ?_, named, ?_⟩
  · rw [reference, same]
    rfl
  · have operations : (trim taken).filter (!·.isTransparent) = taken.filter (·.isOperation) := by
      rw [← filter_isOperation_trim]
      refine List.filter_congr fun instruction member => ?_
      rcases closed.grown.operates_or_transparent (mem_of_mem_trim member) with operates | transparent
      · simp [operates, Instruction.isTransparent_eq_false operates]
      · simp [transparent, Instruction.isOperation_eq_false transparent]
    rw [operations]
    refine closed.unfolds idempotent typed
      (fun instruction member => typed.instructions instruction (inside instruction member))
      written (map_root_redirect idempotent gone _) ?_
    rw [← returnType, same]
    rfl

/-- A block after its edits is the block before them, once the calls are inlined. -/
theorem inlined_of_spliced (idempotent : ∀ value, (Usage.ofMethod method).root
      ((Usage.ofMethod method).root value) = (Usage.ofMethod method).root value)
    (typed : method.IsTyped) (builds : Builds options program made) (gone : List Var)
    {place : Nat} {edits : List Edit}
    (spliced : Spliced (Replaced (made.map (·.1)) limits method) place original edits copies) :
    Inlined (made.map (·.2)) (Usage.ofMethod method).root
      (original.filter (!·.isTransparent))
      ((copies.map (redirect gone (.ofMethod method))).filter (!·.isTransparent)) := by
  induction spliced with
  | done => exact .done
  | keep instruction rest inductionHypothesis =>
    rw [List.map_cons, List.filter_cons, List.filter_cons, isTransparent_redirect]
    split
    · exact .keep rfl rfl rfl (map_root_redirect idempotent gone instruction) inductionHypothesis
    · exact inductionHypothesis
  | @replace window original copies edit edits replaced stops rest inductionHypothesis =>
    have literals : ((kept window).map (redirect gone (.ofMethod method))).filter
        (!·.isTransparent) = [] := by
      rw [List.filter_map, List.map_eq_nil_iff, List.filter_eq_nil_iff]
      intro instruction member
      have role : instruction.role = .literal := by simpa using (List.mem_filter.mp member).2
      have transparent : instruction.isTransparent = true := by
        rw [Instruction.isTransparent, role]
        rfl
      simp [isTransparent_redirect, transparent]
    obtain ⟨outline, opcode, named, unfolds⟩ :=
      unfolds_of_replaced idempotent typed builds replaced gone
    have called := Instruction.isTransparent_of_call opcode
    rw [List.filter_append, List.map_append, List.filter_append, literals, List.nil_append,
      List.map_cons, List.filter_cons_of_pos (by simp [called])]
    exact .call opcode named unfolds inductionHypothesis

/-- A run that returns a holder is undone by inlining: every block of a method that is no outline,
joined with the blocks split off from it, does what it did before the run once the calls of
outlines are replaced by what the outlines do. -/
theorem inlining_undoes_outlining {options : Options} {program : Program} {holder : Holder}
    {final : Pipeline} (valid : program.complaint? = none)
    (assigned : ∀ method ∈ program.methods, method.synthetic = false → method.SingleAssignment)
    (typed : ∀ method ∈ program.methods, method.IsTyped)
    (done : run.run (start options program) = .ok (some holder) final) :
    ∀ (place : Nat) (method : Method), program.methods[place]? = some method →
      method.synthetic = false →
      ∃ rewritten, final.program.methods[place]? = some rewritten ∧
        Recovers holder.methods method rewritten := by
  have sound : AllSound options program := fun method member plain =>
    AllocatesBare.sound (assigned method member plain).allocations options.limits
  obtain ⟨made, rfl, outlined⟩ := outlined_of_run sound done
  intro place method found plain
  have member := List.mem_of_getElem? found
  have here := valid_of_mem valid member
  have idempotent := root_root here (assigned method member plain).acyclic
  refine ⟨outcome (made.map (·.1)) options.limits (selectionOf options program) method, ?_, ?_⟩
  · have inside := (List.getElem?_eq_some_iff.mp found).1
    rw [outlined.methods, List.getElem?_append_left (by simpa using inside), List.getElem?_map,
      found]
    rfl
  · intro label block there
    unfold outcome
    split
    · obtain ⟨first, instructions, begins, spliced, joined⟩ := exists_rejoined here there
      exact ⟨first, _, begins, joined,
        inlined_of_spliced idempotent (typed method member) outlined.builds _ spliced⟩
    · refine ⟨block, block.instructions, there, .whole fun target leads => ?_, inlined_refl _ _ _⟩
      have whole := (Method.defect?_eq_none_iff method).mp here label block there
      exact ((Block.defect?_eq_none_iff ..).mp whole).2.1 target (List.mem_append_left _ leads)

/-- A method that multiplies a sum, under another type, with one of its terms. -/
def scalesSum : Method where
  index := 0
  reference := ⟨⟨"LA;"⟩, "m", ⟨.int, [.int, .int]⟩⟩
  types := [.number .int, .number .int, .number .int, .number .int, .number .int]
  blocks := [⟨0, [⟨.argument 0, [], some 0, none⟩, ⟨.argument 1, [], some 1, none⟩,
    ⟨.arithmetic .add .int, [0, 1], some 2, none⟩, ⟨.refine, [2], some 3, none⟩,
    ⟨.arithmetic .mul .int, [1, 3], some 4, none⟩, ⟨.ret, [4], none, none⟩], [], []⟩]
  synthetic := false

theorem exists_run_scalesSum : ∃ holder final rewritten,
    run.run (start eager ⟨[scalesSum]⟩) = .ok (some holder) final ∧
      final.program.methods[0]? = some rewritten ∧ Recovers holder.methods scalesSum rewritten := by
  have returns : succeeds (fun returned _ => returned.isSome)
      (run.run (start eager ⟨[scalesSum]⟩)) = true := by decide +kernel
  have assigned : scalesSum.SingleAssignment :=
    ⟨⟨scalesSum.blocks, .refl _, by decide⟩, by simp [scalesSum, Method.instructions],
      by simp [scalesSum, Method.instructions]⟩
  have typed : scalesSum.IsTyped := ⟨by simp [scalesSum, ValueType.IsTyped],
    by simp [scalesSum, Method.instructions, Instruction.IsTyped]⟩
  obtain ⟨returned, final, done, some⟩ := exists_of_succeeds returns
  obtain ⟨holder, rfl⟩ := Option.isSome_iff_exists.mp some
  obtain ⟨rewritten, found, recovers⟩ := inlining_undoes_outlining (by decide)
    (by simpa using fun _ => assigned) (by simpa using typed) done 0 scalesSum rfl rfl
  exact ⟨holder, final, rewritten, done, found, recovers⟩

end Pipeline

end Outlining
