import Outlining.Proofs.Bytecode.Root
import Outlining.Proofs.Pipeline.Run
import Outlining.Proofs.Rewriting.Splice
import Outlining.Proofs.Window.Candidate

namespace Outlining.Pipeline

open Outlining.Bytecode Outlining.Rewriting Outlining.Template Outlining.Window

variable {outlines : List Outline} {limits : Limits} {method : Method} {block : Block}
  {label : Label} {start : Nat} {ahead : List Instruction} {founds : List Found}

/-- Whether an edit replaces a window of a method by the call of its outline. -/
def Replaced (outlines : List Outline) (limits : Limits) (method : Method)
    (window : List Instruction) (edit : Edit) : Prop :=
  ∃ hit label start taken state, outlineFor? outlines hit.2.template = some hit.1 ∧
    Closed (.ofMethod method limits) label start taken state hit.2 ∧ taken ≠ [] ∧
    (∀ instruction ∈ taken, instruction ∈ method.instructions) ∧
    window = trim taken ∧ edit = editOf method hit

/-- A candidate with an outline is replaced, and what its window took behind it is kept. -/
private theorem exists_spliced_of_closed {taken rewritten : List Instruction} {window : Window}
    {candidate : Candidate} {outline : Outline} {edits : List Edit}
    (known : outlineFor? outlines candidate.template = some outline)
    (closed : Closed (.ofMethod method limits) label start taken window candidate)
    (begun : taken ≠ []) (inside : ∀ instruction ∈ taken, instruction ∈ method.instructions)
    (spliced : Spliced (Replaced outlines limits method) (start + taken.length) ahead edits
      rewritten) :
    ∃ whole, Spliced (Replaced outlines limits method) start (taken ++ ahead)
      (editOf method (outline, candidate) :: edits) whole := by
  have starts : (editOf method (outline, candidate)).start = start := by
    rw [editOf, closed.same]
  have stops : (editOf method (outline, candidate)).stop = start + (trim taken).length := by
    rw [editOf, closed.same]
  have replaced : Replaced outlines limits method (trim taken)
      (editOf method (outline, candidate)) :=
    ⟨_, _, _, _, _, known, closed, begun, inside, rfl, rfl⟩
  have later : Spliced (Replaced outlines limits method)
      (editOf method (outline, candidate)).stop (trailing taken ++ ahead) edits
      (trailing taken ++ rewritten) := by
    refine Spliced.append _ ?_
    rwa [stops, Nat.add_assoc, length_trim_add]
  have whole := Spliced.replace replaced (by rw [stops, starts]) later
  rw [starts, ← List.append_assoc, trim_append_trailing] at whole
  exact ⟨_, whole⟩

/-- The edits for the windows found in some instructions replace them one after the other. -/
theorem exists_spliced (outlines : List Outline)
    (cut : Cut (.ofMethod method limits) label start ahead founds)
    (inside : ∀ instruction ∈ ahead, instruction ∈ method.instructions) :
    ∃ rewritten, Spliced (Replaced outlines limits method) start ahead
      ((hits outlines (founds.filterMap (·.toOption))).map (editOf method)) rewritten := by
  induction cut with
  | done start => exact ⟨[], .done start⟩
  | pass instruction rest inductionHypothesis =>
    obtain ⟨rewritten, spliced⟩ :=
      inductionHypothesis fun other member => inside other (List.mem_cons_of_mem _ member)
    exact ⟨_, .keep instruction spliced⟩
  | @close start taken ahead window founds grown begun settled large rest inductionHypothesis =>
    obtain ⟨rewritten, spliced⟩ :=
      inductionHypothesis fun other member => inside other (List.mem_append_right _ member)
    cases closed : Window.candidate (.ofMethod method limits) label start window taken with
    | error assertion =>
      rw [List.filterMap_cons_none (by rfl)]
      exact ⟨_, spliced.append taken⟩
    | ok candidate =>
      rw [List.filterMap_cons_some (by rfl)]
      cases known : outlineFor? outlines candidate.template with
      | none =>
        rw [hits_cons_of_none known]
        exact ⟨_, spliced.append taken⟩
      | some outline =>
        rw [hits_cons_of_some known, List.map_cons]
        exact exists_spliced_of_closed known (.of_candidate grown settled large closed) begun
          (fun other member => inside other (List.mem_append_left _ member)) spliced

/-- The windows found in a block that broke no assertion. -/
def foundIn (limits : Limits) (method : Method) (block : Block) : List Candidate :=
  (scanBlock (.ofMethod method limits) block).filterMap (·.toOption)

theorem found_eq (limits : Limits) (method : Method) :
    found limits method = method.blocks.flatMap (foundIn limits method) := by
  rw [found, Method.scan, List.filterMap_flatMap]
  rfl

theorem block_of_mem_foundIn {candidate : Candidate}
    (member : candidate ∈ foundIn limits method block) : candidate.block = block.label := by
  obtain ⟨result, listed, same⟩ := List.mem_filterMap.mp member
  obtain ⟨before, taken, after, window, _, grown, _, settled, large, known⟩ :=
    (cut_scanBlock (.ofMethod method limits) block).of_mem listed
  cases result with
  | error assertion => cases same
  | ok other =>
    cases same
    rw [(candidate_eq_ok_iff.mp known.symm).2.2]

theorem label_ne_of_split (labelled : Labelled method) {earlier later : List Block}
    (split : method.blocks = earlier ++ block :: later) {other : Block}
    (member : other ∈ earlier ++ later) : other.label ≠ block.label := by
  have here : block.label = earlier.length := labelled earlier.length block (by simp [split])
  rw [here]
  rcases List.mem_append.mp member with before | after
  · obtain ⟨place, found⟩ := List.mem_iff_getElem?.mp before
    have inside := (List.getElem?_eq_some_iff.mp found).1
    have there := labelled place other (by rw [split, List.getElem?_append_left inside, found])
    rw [there]
    exact Nat.ne_of_lt inside
  · obtain ⟨place, found⟩ := List.mem_iff_getElem?.mp after
    have there := labelled (earlier.length + (place + 1)) other (by
      rw [split, List.getElem?_append_right (Nat.le_add_right _ _), Nat.add_sub_cancel_left]
      exact found)
    rw [there]
    exact Nat.ne_of_gt (Nat.lt_add_of_pos_right (Nat.succ_pos place))

theorem filter_found (labelled : Labelled method) (present : block ∈ method.blocks) :
    (found limits method).filter (·.block == block.label) = foundIn limits method block := by
  obtain ⟨earlier, later, split⟩ := List.append_of_mem present
  have none : ∀ other ∈ earlier ++ later,
      (foundIn limits method other).filter (·.block == block.label) = [] := by
    intro other member
    refine List.filter_eq_nil_iff.mpr fun candidate listed => ?_
    rw [block_of_mem_foundIn listed]
    simpa using label_ne_of_split labelled split member
  have all : (foundIn limits method block).filter (·.block == block.label) =
      foundIn limits method block := by
    refine List.filter_eq_self.mpr fun candidate listed => ?_
    simp [block_of_mem_foundIn listed]
  rw [found_eq, List.filter_flatMap, split, List.flatMap_append, List.flatMap_cons, all,
    List.flatMap_eq_nil_iff.mpr fun other member => none other (List.mem_append_left _ member),
    List.flatMap_eq_nil_iff.mpr fun other member => none other (List.mem_append_right _ member)]
  simp

/-- The edits of a block are those for the windows found in it. -/
theorem editsOf_editsFor (labelled : Labelled method) (present : block ∈ method.blocks) :
    editsOf (editsFor outlines limits method) block.label =
      (hits outlines (foundIn limits method block)).map (editOf method) := by
  rw [editsOf, editsFor, List.filter_map, ← filter_found labelled present, hits, hits,
    List.filter_filterMap, List.filterMap_filter]
  refine congrArg _ (List.filterMap_congr fun candidate _ => ?_)
  cases outlineFor? outlines candidate.template with
  | none => simp
  | some outline => simp [editOf, Option.filter]

theorem apply_nil (usage : Usage) (method : Method) : apply [] usage method = method := by
  have blocks (label : Label) (list : List Block) : rewriteBlocks [] label list = (list, []) := by
    induction list generalizing label with
    | nil => rfl
    | cons block list inductionHypothesis => simp [rewriteBlocks, editsOf, inductionHypothesis]
  have same : redirect [] usage = id := by
    funext instruction
    simp [redirect]
  rw [apply, blocks, removedFrom_nil]
  simp [refinedBy, same]

theorem rewritten_eq_apply (outlines : List Outline) (limits : Limits) (method : Method) :
    rewritten outlines limits method =
      apply (editsFor outlines limits method) (.ofMethod method) method := by
  rw [rewritten]
  split
  · rename_i none
    rw [List.isEmpty_iff.mp none, apply_nil]
  · rfl

/-- The refinements that are gone after the rewriting of a method. -/
def gone (outlines : List Outline) (limits : Limits) (method : Method) : List Var :=
  refinedBy (removedFrom (editsFor outlines limits method) method)

/-- A block of a method after the rewriting, together with what was split off from it. -/
theorem exists_rejoined (valid : method.defect? = none)
    (found : method.blocks[label]? = some block) :
    ∃ first instructions, (rewritten outlines limits method).blocks[label]? = some first ∧
      Spliced (Replaced outlines limits method) 0 block.instructions
        ((hits outlines (foundIn limits method block)).map (editOf method)) instructions ∧
      Rejoined (rewritten outlines limits method).blocks method.blocks.length first
        (instructions.map (redirect (gone outlines limits method) (.ofMethod method))) := by
  have present := List.mem_of_getElem? found
  have stays : ∀ block ∈ method.blocks, ∀ target ∈ block.successors,
      target < method.blocks.length :=
    fun _ member _ leads => target_lt_of_valid valid member (List.mem_append_left _ leads)
  obtain ⟨first, there, joined⟩ :=
    rejoined_apply (editsFor outlines limits method) (.ofMethod method) stays found
  rw [editsOf_editsFor (labelled_of_valid valid) present] at joined
  obtain ⟨instructions, spliced⟩ := exists_spliced outlines
    (cut_scanBlock (.ofMethod method limits) block)
    fun instruction member => List.mem_flatMap.mpr ⟨block, present, member⟩
  rw [rewritten_eq_apply]
  refine ⟨first, instructions, there, spliced, ?_⟩
  rw [← spliced.spliced_eq]
  exact joined

end Outlining.Pipeline
