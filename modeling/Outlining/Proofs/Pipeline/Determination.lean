import Outlining.Proofs.Pipeline.Coverage
import Outlining.Proofs.Pipeline.Selection

/-! The windows replaced are those in frequent methods whose template is worthwhile, and there is
one outline for each worthwhile template. Nothing else of the program changes. -/
namespace Outlining

open Outlining.Bytecode Outlining.Rewriting Outlining.Template Outlining.Window

/-- An edit whose window ends with an operation. -/
def Rewriting.EndsWithOperation (window : List Instruction) (_ : Edit) : Prop :=
  window.getLast?.any (·.isOperation) = true

namespace Pipeline

variable {options : Options} {program : Program} {method : Method} {template : Template}
  {templates : List Template} {candidate : Candidate} {made : List (Outline × Method)}
  {outlines : List Outline} {limits : Limits}

/-- The reference of the outline for the template at a place. -/
def outlineReference (options : Options) (place : Nat) (template : Template) : Reference :=
  ⟨options.holderType, options.nameStem ++ toString place,
    ⟨template.returnType, template.argumentTypes⟩⟩

/-- The call of the outline for the template of a window, in place of the window. -/
def exchange (options : Options) (templates : List Template) (method : Method)
    (candidate : Candidate) : Edit where
  block := candidate.block
  start := candidate.start
  stop := candidate.stop
  call :=
    { opcode := .call .static
        (outlineReference options (templates.idxOf candidate.template) candidate.template) false
      operands := candidate.arguments
      result := if candidate.template.returnType.isVoid then none else candidate.result
      line := ((windowOf method candidate).filter (!·.isTransparent)).findSome? (·.line) }

def windowsWith (limits : Limits) (templates : List Template) (method : Method) :
    List Candidate :=
  (found limits method).filter fun candidate => templates.contains candidate.template

/-- Whether a method is what is left of another one once its windows with the given templates are
replaced by calls, and nothing else. In each block all of them are replaced one after the other,
and what read a refinement inside of them reads the refined value. -/
structure Exchanged (options : Options) (templates : List Template) (method result : Method) :
    Prop where
  edited : result = apply
    ((windowsWith options.limits templates method).map (exchange options templates method))
    (.ofMethod method) method
  blocks : ∀ label block, method.blocks[label]? = some block → ∃ first instructions,
    result.blocks[label]? = some first ∧
    Spliced EndsWithOperation 0 block.instructions
      (((windowsWith options.limits templates method).filter (·.block == label)).map
        (exchange options templates method)) instructions ∧
    Rejoined result.blocks method.blocks.length first (instructions.map (redirect
      (refinedBy ((windowsWith options.limits templates method).flatMap (windowOf method)))
      (.ofMethod method)))

/-- Whether a method is what is left of another one once all its windows that have an outline are
replaced by calls, and nothing else. In each block they are replaced one after the other, and what
read a refinement inside of them reads the refined value. -/
structure Replacing (outlines : List Outline) (limits : Limits) (method result : Method) :
    Prop where
  edited : result = apply ((hits outlines (found limits method)).map (editOf method))
    (.ofMethod method) method
  blocks : ∀ label block, method.blocks[label]? = some block → ∃ first instructions,
    result.blocks[label]? = some first ∧
    Spliced EndsWithOperation 0 block.instructions
      (((hits outlines (found limits method)).filter (·.2.block == label)).map (editOf method))
      instructions ∧
    Rejoined result.blocks method.blocks.length first (instructions.map (redirect
      (refinedBy ((hits outlines (found limits method)).flatMap fun hit => windowOf method hit.2))
      (.ofMethod method)))

/-- Whether a holder has one outline for each template, named and numbered by its place. -/
structure Holds (options : Options) (first : MethodIndex) (templates : List Template)
    (holder : Holder) : Prop where
  type : holder.type = options.holderType
  count : holder.methods.length = templates.length
  outline : ∀ (place : Nat) template, templates[place]? = some template → ∃ outline,
    holder.methods[place]? = some outline ∧ outline.index = first + place ∧
    outline.reference = outlineReference options place template ∧ outline.synthetic = true ∧
    template.body outline.reference outline.index = .ok outline

/-- What a run has done that made outlines for the given templates. -/
structure Outlines (options : Options) (program : Program) (templates : List Template)
    (returned : Option Holder) (result : Program) : Prop where
  ordered : templates.Pairwise fun left right => compare left right = .lt
  worthwhile : ∀ template, template ∈ templates ↔ IsWorthwhile options program template
  unchanged : templates = [] → returned = none ∧ result = program
  outlined : templates ≠ [] → ∃ holder, returned = some holder ∧
    Holds options program.methods.length templates holder ∧
    result.methods.length = program.methods.length + holder.methods.length ∧
    (∀ (place : Nat) outline, holder.methods[place]? = some outline →
      result.methods[program.methods.length + place]? = some outline) ∧
    ∀ (place : Nat) method, program.methods[place]? = some method →
      ∃ rewritten, result.methods[place]? = some rewritten ∧
        (method ∈ frequentMethods options program →
          Exchanged options templates method rewritten) ∧
        (method ∉ frequentMethods options program ∨ method.synthetic = true →
          rewritten = method)

def templateList (options : Options) (program : Program) : List Template :=
  (templatesOf options program).map Prod.snd

theorem nodup_templateList (options : Options) (program : Program) :
    (templateList options program).Nodup :=
  Template.nodup_of_pairwise (pairwise_templatesOf options program)

section Builds

variable (builds : Builds options program made)
include builds

theorem getElem?_of_builds {place : Nat}
    (listed : (templateList options program)[place]? = some template) :
    ∃ result, made[place]? = some result ∧ result.1.template = template ∧
      result.1.reference = outlineReference options place template ∧
      result.2.index = program.methods.length + place ∧
      result.2.reference = result.1.reference ∧ result.2.synthetic = true ∧
      template.body result.2.reference result.2.index = .ok result.2 := by
  rw [templateList, List.getElem?_map, Option.map_eq_some_iff] at listed
  obtain ⟨entry, known, rfl⟩ := listed
  have count := (Holder.made_of_outlines builds 0).2
  have inside : place < made.length := by
    rw [count]
    exact (List.getElem?_eq_some_iff.mp known).1
  have found := List.getElem?_eq_getElem inside
  obtain ⟨other, same, making⟩ := (Holder.made_of_outlines builds place).1 _ found
  obtain rfl : entry = other := Option.some.inj (known.symm.trans same)
  have written := making.body
  obtain ⟨index, reference, synthetic, _⟩ := of_body_eq_ok written
  rw [Nat.zero_add] at index
  refine ⟨_, found, ?_, ?_, index, reference, synthetic, ?_⟩
  · rw [making.outline]
  · rw [making.outline, Nat.zero_add]
    rfl
  · rw [reference, index]
    rwa [Nat.zero_add] at written

theorem outlineFor?_of_mem (member : template ∈ templateList options program) :
    ∃ outline, outlineFor? (made.map (·.1)) template = some outline ∧ outline.reference =
      outlineReference options ((templateList options program).idxOf template) template := by
  obtain ⟨place, listed⟩ := List.mem_iff_getElem?.mp member
  obtain ⟨result, found, same, _⟩ := getElem?_of_builds builds listed
  cases known : outlineFor? (made.map (·.1)) template with
  | none =>
    have differs := List.find?_eq_none.mp known result.1
      (List.mem_map_of_mem (List.mem_of_getElem? found))
    simp [same] at differs
  | some outline =>
    -- the outline found may stand at another place, but then with another template
    refine ⟨outline, rfl, ?_⟩
    obtain ⟨other, present, rfl⟩ := List.mem_map.mp (List.mem_of_find?_eq_some known)
    obtain ⟨otherPlace, otherFound⟩ := List.mem_iff_getElem?.mp present
    have count := (Holder.made_of_outlines builds 0).2
    have inside : otherPlace < (templateList options program).length := by
      rw [templateList, List.length_map, ← count]
      exact (List.getElem?_eq_some_iff.mp otherFound).1
    have otherListed := List.getElem?_eq_getElem inside
    obtain ⟨again, foundAgain, listedHere, reference, _⟩ := getElem?_of_builds builds otherListed
    obtain rfl : other = again := Option.some.inj (otherFound.symm.trans foundAgain)
    have equal : other.1.template = template := by simpa using List.find?_some known
    have here : (templateList options program)[otherPlace] = template := listedHere.symm.trans equal
    have only : (templateList options program).idxOf template = otherPlace := by
      rw [← here]
      exact (nodup_templateList options program).idxOf_getElem otherPlace inside
    rw [reference, only, here]

theorem outlineFor?_of_notMem (absent : template ∉ templateList options program) :
    outlineFor? (made.map (·.1)) template = none := by
  apply List.find?_eq_none.mpr
  intro outline member same
  obtain ⟨result, present, rfl⟩ := List.mem_map.mp member
  obtain ⟨place, found⟩ := List.mem_iff_getElem?.mp present
  obtain ⟨entry, known, making⟩ := (Holder.made_of_outlines builds place).1 result found
  apply absent
  rw [making.outline, beq_iff_eq] at same
  rw [← same]
  exact List.mem_map_of_mem (List.mem_of_getElem? known)

/-- The edits of a method are those for its windows with a template that has an outline. -/
theorem editsFor_of_builds (limits : Limits) (method : Method) :
    editsFor (made.map (·.1)) limits method =
      (windowsWith limits (templateList options program) method).map
        (exchange options (templateList options program) method) := by
  rw [editsFor, hits, windowsWith, List.map_filterMap,
    ← List.filterMap_eq_map (f := exchange options (templateList options program) method),
    List.filterMap_filter]
  apply List.filterMap_congr
  intro candidate _
  by_cases member : candidate.template ∈ templateList options program
  · obtain ⟨outline, known, reference⟩ := outlineFor?_of_mem builds member
    rw [known, if_pos (by simpa using member)]
    simp [editOf, callFor, exchange, reference, outlineReference]
  · rw [outlineFor?_of_notMem builds member, if_neg (by simpa using member)]
    rfl

theorem map_snd_hits (candidates : List Candidate) :
    (hits (made.map (·.1)) candidates).map Prod.snd =
      candidates.filter fun candidate => (templateList options program).contains
        candidate.template := by
  rw [hits, List.map_filterMap, ← List.filterMap_eq_filter]
  apply List.filterMap_congr
  intro candidate _
  by_cases member : candidate.template ∈ templateList options program
  · obtain ⟨outline, known, _⟩ := outlineFor?_of_mem builds member
    simp [known, member]
  · simp [outlineFor?_of_notMem builds member, member, Option.guard]

end Builds

theorem refinedBy_removed {window : List Instruction}
    (ends : window.getLast?.any (·.isOperation) = true) :
    refinedBy (removed window) = refinedBy window := by
  cases known : window.getLast? with
  | none => simp [known] at ends
  | some last =>
    have operates : last.isOperation = true := by simpa [known] using ends
    obtain ⟨front, rfl⟩ := List.getLast?_eq_some_iff.mp known
    have solid : last.role ≠ .refinement := by
      intro refines
      simp [Instruction.isOperation, refines, Role.isOperation] at operates
    rw [removed, List.dropLast_concat, refinedBy, refinedBy, List.filter_filter,
      List.filter_append, List.filter_cons_of_neg (by simpa using solid), List.filter_nil,
      List.append_nil]
    apply congrArg (List.filterMap _)
    apply List.filter_congr
    intro instruction _
    cases instruction.role <;> rfl

section Rewritten

variable (valid : method.defect? = none)
  (ends : ∀ hit ∈ hits outlines (found limits method), Replaceable method hit)
include valid ends

theorem gone_eq : gone outlines limits method =
    refinedBy ((hits outlines (found limits method)).flatMap fun hit => windowOf method hit.2) := by
  have each : ∀ block ∈ method.blocks,
      refinedBy ((windows (editsOf (editsFor outlines limits method) block.label)
        block.instructions).flatMap removed) =
      refinedBy ((hits outlines (foundIn limits method block)).flatMap fun hit =>
        windowOf method hit.2) := by
    intro block present
    obtain ⟨label, there⟩ := List.mem_iff_getElem?.mp present
    rw [editsOf_editsFor (labelled_of_valid valid) present, windows, List.map_map,
      List.flatMap_map]
    simp only [refinedBy, List.filter_flatMap, List.filterMap_flatMap]
    apply List.flatMap_congr
    intro hit member
    obtain ⟨listed, known⟩ := mem_hits_iff.mp member
    obtain ⟨listed, here⟩ := (mem_foundIn_iff valid present).mp listed
    have same : Rewriting.windowOf (editOf method hit) 0 block.instructions =
        windowOf method hit.2 := by
      simp [Rewriting.windowOf, windowOf, editOf, here, label_eq valid there, there]
    rw [Function.comp_apply, same]
    exact refinedBy_removed (ends hit (mem_hits_iff.mpr ⟨listed, known⟩)).ends
  have apart : hits outlines (found limits method) =
      method.blocks.flatMap fun block => hits outlines (foundIn limits method block) := by
    rw [found_eq, hits, List.filterMap_flatMap]
    rfl
  rw [gone, removedFrom, apart, List.flatMap_assoc]
  simp only [refinedBy, List.filter_flatMap, List.filterMap_flatMap] at each ⊢
  exact List.flatMap_congr each

end Rewritten

theorem endsWithOperation_of_replaced {window : List Instruction} {edit : Edit}
    (replaced : Replaced outlines limits method window edit) : EndsWithOperation window edit := by
  obtain ⟨hit, label, start, taken, state, _, closed, begun, _, rfl, _⟩ := replaced
  obtain ⟨last, ends, operates⟩ := exists_last closed.grown (closed.grown.operations_pos begun)
  rw [EndsWithOperation, ends]
  exact operates

/-- Rewriting replaces the windows that have an outline, and nothing else. -/
theorem replacing_rewritten (valid : method.defect? = none)
    (ends : ∀ hit ∈ hits outlines (found limits method), Replaceable method hit) :
    Replacing outlines limits method (rewritten outlines limits method) where
  edited := rewritten_eq_apply outlines limits method
  blocks := by
    intro label block there
    have present := List.mem_of_getElem? there
    obtain ⟨first, instructions, begins, spliced, joined⟩ :=
      @exists_rejoined outlines limits _ _ _ valid there
    refine ⟨first, instructions, begins, ?_, ?_⟩
    · rw [← editsOf_editsFor (labelled_of_valid valid) present, editsOf, editsFor, List.filter_map,
        label_eq valid there] at spliced
      exact spliced.imp fun _ _ => endsWithOperation_of_replaced
    · rwa [gone_eq valid ends] at joined

/-- Rewriting replaces the windows with a template that has an outline, and nothing else. -/
theorem exchanged_rewritten (valid : method.defect? = none)
    (builds : Builds options program made) :
    Exchanged options (templateList options program) method
      (rewritten (made.map (·.1)) options.limits method) where
  edited := by rw [rewritten_eq_apply, editsFor_of_builds builds]
  blocks := by
    intro label block there
    have replacing := @replacing_rewritten method (made.map (·.1)) options.limits valid
      fun hit member => replaceable_of_hit (labelled_of_valid valid) builds member
    obtain ⟨first, instructions, begins, spliced, joined⟩ := replacing.blocks label block there
    refine ⟨first, instructions, begins, ?_, ?_⟩
    · have edits := congrArg (List.filter (·.block == label))
        (editsFor_of_builds builds options.limits method)
      rw [editsFor, List.filter_map, List.filter_map] at edits
      exact edits ▸ spliced
    · rwa [← List.flatMap_map, map_snd_hits builds (found options.limits method)] at joined

theorem holds_of_builds (builds : Builds options program made) :
    Holds options program.methods.length (templateList options program)
      (holderOf options made) where
  type := rfl
  count := by
    rw [holderOf, templateList, List.length_map, List.length_map]
    exact (Holder.made_of_outlines builds 0).2
  outline := by
    intro place template listed
    obtain ⟨result, found, _, reference, index, same, synthetic, written⟩ :=
      getElem?_of_builds builds listed
    refine ⟨result.2, ?_, index, same.trans reference, synthetic, written⟩
    rw [holderOf, List.getElem?_map, found]
    rfl

/-- What a run outlines is determined: it replaces the windows in frequent methods whose template
is worthwhile, each by a call of the outline of its own template, and appends one outline for each
worthwhile template, named and numbered in the order of templates. All other methods stay as they
are, and the whole program does if no template is worthwhile. -/
theorem run_outlines_worthwhile {options : Options} {program : Program}
    {returned : Option Holder} {final : Pipeline} (valid : program.complaint? = none)
    (enabled : options.enabled = true)
    (done : run.run (start options program) = .ok returned final) :
    ∃ templates, Outlines options program templates returned final.program := by
  have sound := allSound_of_run enabled done
  refine ⟨templateList options program, pairwise_templatesOf options program,
    fun template => mem_templatesOf_iff (indexed_of_valid valid), ?_, ?_⟩
  · intro none
    cases returned with
    | none => exact ⟨rfl, (unchanged_of_run sound done).1⟩
    | some holder =>
      obtain ⟨made, _, outlined⟩ := outlined_of_run sound done
      have count := (Holder.made_of_outlines outlined.builds 0).2
      rw [List.map_eq_nil_iff.mp none, List.length_nil] at count
      exact absurd (List.length_eq_zero_iff.mp count) outlined.some
  · intro some
    cases returned with
    | none =>
      have none := (unchanged_of_run sound done).2.2 enabled
      rw [templateList, none] at some
      exact absurd rfl some
    | some holder =>
      obtain ⟨made, rfl, outlined⟩ := outlined_of_run sound done
      refine ⟨_, rfl, holds_of_builds outlined.builds, ?_, ?_, ?_⟩
      · rw [outlined.methods, List.length_append, List.length_map]
        rfl
      · intro place outline found
        rw [outlined.methods, List.getElem?_append_right (by simp)]
        simpa [holderOf] using found
      · intro place method found
        have inside := (List.getElem?_eq_some_iff.mp found).1
        have member := List.mem_of_getElem? found
        have frequent := @isChosen_selectionOf_iff options _ _ (indexed_of_valid valid) member
        refine ⟨outcome (made.map (·.1)) options.limits (selectionOf options program) method,
          ?_, ?_, ?_⟩
        · rw [outlined.methods, List.getElem?_append_left (by simpa using inside),
            List.getElem?_map, found]
          rfl
        · intro selected
          rw [outcome, if_pos (frequent.mpr selected)]
          exact exchanged_rewritten (valid_of_mem valid member) outlined.builds
        · intro spared
          rw [outcome, if_neg]
          rw [frequent]
          rcases spared with other | synthetic
          · exact other
          · intro selected
            have plain := (mem_plainMethods_iff.mp (List.mem_filter.mp selected).1).2
            rw [synthetic] at plain
            cases plain

/-- A method that computes a sum twice, a product, and nothing more. -/
def sumsTwice (index : MethodIndex) (synthetic : Bool) : Method where
  index := index
  reference := ⟨⟨"LA;"⟩, "m" ++ toString index, ⟨.int, [.int, .int]⟩⟩
  types := [.number .int, .number .int, .number .int, .number .int, .number .int]
  blocks := [⟨0, [⟨.argument 0, [], some 0, none⟩, ⟨.argument 1, [], some 1, none⟩,
    ⟨.arithmetic .add .int, [0, 1], some 2, none⟩, ⟨.other "nop", [], none, none⟩,
    ⟨.arithmetic .add .int, [0, 1], some 3, none⟩, ⟨.other "nop", [], none, none⟩,
    ⟨.arithmetic .mul .int, [0, 1], some 4, none⟩, ⟨.ret, [4], none, none⟩], [], []⟩]
  synthetic := synthetic

/-- Options under which a template gets an outline if it has two windows. -/
def paired : Options :=
  { Options.standard 1 with minSize := 1, methodThreshold := 1, siteThreshold := 2 }

theorem exists_run_sumsTwice : ∃ holder final templates,
    run.run (start paired ⟨[sumsTwice 0 false, sumsTwice 1 true]⟩) = .ok (some holder) final ∧
      Outlines paired ⟨[sumsTwice 0 false, sumsTwice 1 true]⟩ templates (some holder)
        final.program := by
  have returns : succeeds (fun returned _ => returned.isSome)
      (run.run (start paired ⟨[sumsTwice 0 false, sumsTwice 1 true]⟩)) = true := by decide +kernel
  obtain ⟨returned, final, done, some⟩ := exists_of_succeeds returns
  obtain ⟨holder, rfl⟩ := Option.isSome_iff_exists.mp some
  obtain ⟨templates, outlines⟩ := run_outlines_worthwhile (by decide) rfl done
  exact ⟨holder, final, templates, done, outlines⟩

end Pipeline

end Outlining
