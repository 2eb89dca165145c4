import Outlining.Proofs.Pipeline.Accounting
import Outlining.Proofs.Pipeline.Determination
import Outlining.Proofs.Pipeline.Validity
import Outlining.Proofs.Rewriting.Chain

/-! Rewriting divides guarded blocks after their calls and leaves all others in one piece. The parts
of a block follow one another, have its handlers, and go on where the block went before. Nothing
else leads to the parts that were split off. -/
namespace Outlining.Pipeline

open Outlining.Bytecode Outlining.Rewriting Outlining.Window

variable {outlines : List Outline} {limits : Limits} {method result : Method} {block : Block}
  {pipeline final : Pipeline} {blocks : List Block}

/-- What a block of a method becomes, before operands are replaced. -/
def entriesFor (outlines : List Outline) (limits : Limits) (method : Method) (block : Block) :
    List Entry :=
  entries (editsOf (editsFor outlines limits method) block.label) 0 block.instructions

/-- The instructions of some entries in the rewritten method. -/
def rendered (outlines : List Outline) (limits : Limits) (method : Method) (part : List Entry) :
    List Instruction :=
  part.map fun entry =>
    redirect (gone outlines limits method) (.ofMethod method) entry.instruction

theorem flatten_rendered (outlines : List Outline) (limits : Limits) (method : Method)
    (block : Block) :
    ((partsOf (editsFor outlines limits method) block).map
        (rendered outlines limits method)).flatten =
      rendered outlines limits method (entriesFor outlines limits method block) := by
  unfold rendered
  rw [← List.map_flatten, partsOf, flatten_divide, entriesFor]

/-- What the blocks of a rewritten method are for a block that it had before, where the labels are
those of the blocks split off. -/
structure Flows (outlines : List Outline) (limits : Limits) (method : Method) (blocks : List Block)
    (block : Block) (labels : List Label) : Prop where
  /-- A block stays in one piece if it is not guarded or has no window replaced. -/
  whole : (block.isGuarded = false ∨
    ∀ hit ∈ hits outlines (found limits method), hit.2.block ≠ block.label) → labels = []
  /-- The parts follow one another, and calls stand at their ends. -/
  parts : ∃ parts : List (List Entry), parts.flatten = entriesFor outlines limits method block ∧
    Chain blocks block.handlers block.successors block.label labels
      (parts.map (rendered outlines limits method)) ∧
    (block.isGuarded = true →
      (∀ part ∈ parts.dropLast, EndsWithCall part) ∧ ∀ part ∈ parts, CallsLast part)
  /-- Only the part before leads to a part that was split off. -/
  alone : ∀ (index : Nat) next, labels[index]? = some next → ∀ part ∈ blocks,
    next ∈ part.targets → (block.label :: labels)[index]? = some part.label

theorem spans_replaced (outlines : List Outline) (limits : Limits) (method : Method) :
    Spans (Replaced outlines limits method) := by
  rintro window edit replaced rfl
  have ends := endsWithOperation_of_replaced replaced
  simp [EndsWithOperation] at ends

section Valid

variable (valid : method.defect? = none)
include valid

theorem exists_spliced_editsOf (outlines : List Outline) (limits : Limits)
    (present : block ∈ method.blocks) :
    ∃ rewritten, Spliced (Replaced outlines limits method) 0 block.instructions
      (editsOf (editsFor outlines limits method) block.label) rewritten := by
  rw [editsOf_editsFor (labelled_of_valid valid) present]
  exact exists_spliced outlines (cut_scanBlock (.ofMethod method limits) block)
    fun instruction member => List.mem_flatMap.mpr ⟨block, present, member⟩

theorem exists_chains_rewritten (outlines : List Outline) (limits : Limits) :
    ∃ fresh : List (List Label),
      List.range method.blocks.length ++ fresh.flatten =
        List.range (rewritten outlines limits method).blocks.length ∧
      method.blocks.Forall₂ (fun block labels =>
        Chain (rewritten outlines limits method).blocks block.handlers block.successors
          block.label labels ((partsOf (editsFor outlines limits method) block).map
            (rendered outlines limits method))) fresh := by
  rw [rewritten_eq_apply]
  exact exists_chains_apply (labelled_of_valid valid) _ (spans_replaced outlines limits method)
    fun block => exists_spliced_editsOf valid outlines limits

end Valid

theorem editsOf_eq_nil (none : ∀ hit ∈ hits outlines (found limits method),
    hit.2.block ≠ block.label) : editsOf (editsFor outlines limits method) block.label = [] := by
  refine List.filter_eq_nil_iff.mpr fun edit member => ?_
  obtain ⟨hit, listed, rfl⟩ := List.mem_map.mp member
  exact fun same => none hit listed (beq_iff_eq.mp same)

theorem length_partsOf_eq_one {edits : List Edit}
    (stays : block.isGuarded = false ∨ editsOf edits block.label = []) :
    (partsOf edits block).length = 1 := by
  rcases stays with unguarded | none
  · rw [partsOf, unguarded]
    rfl
  · rw [partsOf, none, divide_of_noCalls (filterMap_call?_nil 0 block.instructions)]
    rfl

/-- Rewriting keeps the control flow of a method: each block keeps its label and its handlers, and
goes on where it went before. A block that is divided does so behind its last part; its other parts
end with a call and a jump to the next one, and nothing else leads there. -/
theorem flows_of_run_rewriteMethod (valid : method.defect? = none)
    (done : (rewriteMethod method).run pipeline = .ok result final) :
    ∃ fresh : List (List Label),
      List.range method.blocks.length ++ fresh.flatten = List.range result.blocks.length ∧
      method.blocks.Forall₂
        (Flows pipeline.outlines pipeline.options.limits method result.blocks) fresh := by
  obtain ⟨_, _, _, rfl, _⟩ :=
    (run_rewriteMethod_eq_ok_iff (sound_of_run_rewriteMethod done)).mp done
  obtain ⟨fresh, known, chains⟩ :=
    exists_chains_rewritten valid pipeline.outlines pipeline.options.limits
  have each : ∀ pair ∈ method.blocks.zip fresh, _ := fun pair listed =>
    (List.forall₂_iff_zip.mp chains).2 listed
  refine ⟨fresh, known, List.forall₂_iff_zip.mpr ⟨chains.length_eq, ?_⟩⟩
  intro block labels listed
  have chain := each _ listed
  refine ⟨fun stays => ?_, ⟨_, flatten_divide .., chain, fun guarded => ?_⟩, ?_⟩
  · refine chain.labels_eq_nil ?_
    rw [List.length_map]
    exact length_partsOf_eq_one (stays.imp_right editsOf_eq_nil)
  · rw [guarded]
    exact ⟨fun _ => endsWithCall_of_mem_divide, fun _ => callsLast_of_mem_divide⟩
  · intro index next split part present leads
    exact reached_from_chain known chains.length_eq (labelled_of_valid valid)
      (fun _ present _ => target_lt_of_valid valid present)
      (fun pair listed => ⟨_, each pair listed⟩) listed split present leads

/-- A method that sums three times, all of it guarded. -/
def sumsGuarded : Method where
  index := 0
  reference := ⟨⟨"LA;"⟩, "m", ⟨.int, [.int, .int]⟩⟩
  types := List.replicate 5 (.number .int)
  blocks := [⟨0, [⟨.argument 0, [], some 0, none⟩, ⟨.argument 1, [], some 1, none⟩,
    ⟨.arithmetic .add .int, [0, 1], some 2, none⟩, ⟨.other "nop", [], none, none⟩,
    ⟨.arithmetic .add .int, [0, 1], some 3, none⟩, ⟨.other "nop", [], none, none⟩,
    ⟨.arithmetic .add .int, [0, 1], some 4, none⟩], [1], [⟨.object, 1⟩]⟩,
    ⟨1, [⟨.ret, [0], none, none⟩], [], []⟩]
  synthetic := false

def guardedRecorded : Pipeline :=
  left ((prepare ⟨[sumsGuarded]⟩ [0] .object 1).run (start eager ⟨[]⟩))

/-- The block is divided after the first two sums; the last one ends its part. -/
theorem flows_of_sumsGuarded : ∃ result final,
    (rewriteMethod sumsGuarded).run guardedRecorded = .ok result final ∧
      result.blocks.map (fun block => (block.label, block.successors)) =
        [(0, [2]), (1, []), (2, [3]), (3, [1])] ∧
      ∃ fresh : List (List Label), List.range 2 ++ fresh.flatten = List.range 4 ∧
        sumsGuarded.blocks.Forall₂
          (Flows guardedRecorded.outlines guardedRecorded.options.limits sumsGuarded
            result.blocks) fresh := by
  have returns : succeeds (fun result _ =>
      result.blocks.map (fun block => (block.label, block.successors)) ==
        [(0, [2]), (1, []), (2, [3]), (3, [1])])
      ((rewriteMethod sumsGuarded).run guardedRecorded) = true := by decide +kernel
  obtain ⟨result, final, done, checked⟩ := exists_of_succeeds returns
  have shape := beq_iff_eq.mp checked
  obtain ⟨fresh, known, flows⟩ := flows_of_run_rewriteMethod (by decide) done
  have count := congrArg List.length shape
  rw [List.length_map] at count
  rw [count] at known
  exact ⟨result, final, done, shape, fresh, known, flows⟩

end Outlining.Pipeline
