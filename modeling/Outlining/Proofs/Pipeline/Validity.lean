import Outlining.Proofs.Pipeline.Accounting
import Outlining.Proofs.Pipeline.Call
import Outlining.Proofs.Rewriting.Validity

/-! Whatever a pipeline is asked for, and however far it gets, a valid program stays valid, and of
the methods that were there before nothing changes but their blocks. The call of an outline passes
values of the table, and the body of an outline names only values that it produces. -/
namespace Outlining

open Outlining.Bytecode Outlining.Window

namespace Bytecode.Program

variable {before between after : Program} {method : Method}

/-- What every step keeps of a program: it is valid, and the methods that were there before are
still there and differ at most in their blocks. -/
structure Kept (before after : Program) : Prop where
  valid : after.complaint? = none
  methods : ∀ (place : Nat) (method : Method), before.methods[place]? = some method →
    ∃ blocks, after.methods[place]? = some { method with blocks := blocks }

theorem kept_refl (valid : before.complaint? = none) : before.Kept before :=
  ⟨valid, fun _ method found => ⟨method.blocks, found⟩⟩

theorem Kept.trans (first : before.Kept between) (second : between.Kept after) :
    before.Kept after := by
  refine ⟨second.valid, fun place method found => ?_⟩
  obtain ⟨_, there⟩ := first.methods place method found
  obtain ⟨blocks, there⟩ := second.methods place _ there
  exact ⟨blocks, there⟩

/-- A method may be replaced by one that differs in its blocks and is valid as well. -/
theorem Kept.set (kept : before.Kept after) {place : Nat} {blocks : List Block}
    (found : before.methods[place]? = some method)
    (sound : { method with blocks := blocks }.defect? = none) :
    before.Kept ⟨after.methods.set place { method with blocks := blocks }⟩ := by
  have valid := (complaint?_eq_none_iff after).mp kept.valid
  obtain ⟨current, there⟩ := kept.methods place method found
  have inside := (List.getElem?_eq_some_iff.mp there).1
  constructor
  · refine (complaint?_eq_none_iff _).mpr fun index other listed => ?_
    by_cases same : place = index
    · subst same
      rw [List.getElem?_set_self inside] at listed
      cases listed
      exact ⟨(valid place _ there).1, sound⟩
    · rw [List.getElem?_set_ne same] at listed
      exact valid index other listed
  · intro index other listed
    by_cases same : place = index
    · subst same
      rw [found] at listed
      cases listed
      exact ⟨blocks, List.getElem?_set_self inside⟩
    · obtain ⟨blocks, there⟩ := kept.methods index other listed
      exact ⟨blocks, by rw [List.getElem?_set_ne same, there]⟩

theorem Kept.appended (kept : before.Kept after) (sound : method.defect? = none) :
    before.Kept (after.append method) := by
  have valid := (complaint?_eq_none_iff after).mp kept.valid
  constructor
  · refine (complaint?_eq_none_iff _).mpr fun index other listed => ?_
    by_cases inside : index < after.methods.length
    · rw [append, List.getElem?_append_left inside] at listed
      exact valid index other listed
    · rw [append, List.getElem?_append_right (Nat.not_lt.mp inside), List.getElem?_singleton,
        Option.ite_none_right_eq_some] at listed
      obtain ⟨here, same⟩ := listed
      cases same
      exact ⟨Nat.le_antisymm (Nat.not_lt.mp inside) (Nat.sub_eq_zero_iff_le.mp here), sound⟩
  · intro index other listed
    obtain ⟨blocks, there⟩ := kept.methods index other listed
    have inside := (List.getElem?_eq_some_iff.mp there).1
    exact ⟨blocks, by rw [append, List.getElem?_append_left inside, there]⟩

theorem Kept.appendAll {methods : List Method} (kept : before.Kept after)
    (sound : ∀ method ∈ methods, method.defect? = none) :
    before.Kept (methods.foldl append after) := by
  induction methods generalizing after with
  | nil => exact kept
  | cons method methods inductionHypothesis =>
    rw [List.forall_mem_cons] at sound
    exact inductionHypothesis (kept.appended sound.1) sound.2

end Bytecode.Program

namespace Pipeline

variable {pipeline final : Pipeline} {method : Method} {limits : Limits} {candidate : Candidate}
  {selection : List MethodIndex} {original : Program}

section Call

variable (valid : method.defect? = none) (present : .ok candidate ∈ method.scan limits)
include valid present

theorem argument_lt {value : Var} (passed : value ∈ candidate.arguments) :
    value < method.types.length := by
  obtain ⟨block, inside, before, taken, after, window, split, _, closed⟩ :=
    closed_of_mem_scan present
  rw [closed.same] at passed
  obtain ⟨argument, bound, rfl⟩ := List.mem_map.mp passed
  obtain ⟨instruction, member, operand, read, same⟩ := closed.grown.exists_operand bound
  have taking := (List.mem_filter.mp member).1
  have known := closed_of_valid valid instruction (mem_instructions_of_split inside split taking)
    operand read
  rw [same]
  exact root_lt (closed_of_valid valid) known

theorem result_lt {value : Var} (returned : candidate.result = some value) :
    value < method.types.length := by
  obtain ⟨block, inside, before, taken, after, window, split, _, closed⟩ :=
    closed_of_mem_scan present
  rw [closed.same] at returned
  obtain ⟨temporary, known, rfl⟩ := Option.map_eq_some_iff.mp returned
  have last := (closed.grown.temporary_eq known).1
  obtain ⟨writer, member, written⟩ :=
    mem_results_iff.mp (List.mem_of_getLast? (show _ = some temporary.value from last))
  have taking := (List.mem_filter.mp member).1
  exact lt_of_result (defect?_of_mem valid (mem_instructions_of_split inside split taking)) written

theorem defect?_callFor (outline : Outline) (window : List Instruction) :
    (callFor outline candidate window).defect? method.types.length = none := by
  refine (Instruction.defect?_eq_none_iff ..).mpr ⟨fun value named => ?_, nofun⟩
  rcases List.mem_append.mp named with passed | written
  · exact argument_lt valid present passed
  · rw [callFor] at written
    split at written
    · cases written
    · exact result_lt valid present (Option.mem_toList.mp written)

end Call

/-- A valid method stays valid if its windows are replaced. -/
theorem defect?_rewritten (outlines : List Outline) (limits : Limits)
    (valid : method.defect? = none) : (rewritten outlines limits method).defect? = none := by
  unfold rewritten
  split
  · exact valid
  · refine Rewriting.defect?_apply valid fun edit listed => ?_
    obtain ⟨hit, replaced, rfl⟩ := List.mem_map.mp listed
    obtain ⟨candidate, present, known⟩ := List.mem_filterMap.mp replaced
    obtain ⟨outline, _, rfl⟩ := Option.map_eq_some_iff.mp known
    exact defect?_callFor valid (mem_found_iff.mp present) outline _

theorem exists_candidates_of_run_edits {found : List Found} {list : List Edit}
    (done : (edits method found).run pipeline = .ok list final) :
    ∃ candidates : List Candidate, found = candidates.map .ok := by
  induction found generalizing pipeline list final with
  | nil => exact ⟨[], rfl⟩
  | cons first found inductionHypothesis =>
    cases first with
    | error assertion => cases done
    | ok candidate =>
      have later {pipeline final : Pipeline} {list : List Edit}
          (done : (edits method found).run pipeline = .ok list final) :
          ∃ candidates : List Candidate, .ok candidate :: found = candidates.map .ok := by
        obtain ⟨candidates, rfl⟩ := inductionHypothesis done
        exact ⟨candidate :: candidates, rfl⟩
      cases known : outlineFor? pipeline.outlines candidate.template with
      | none =>
        rw [run_edits_cons_of_none known] at done
        exact later done
      | some outline =>
        cases struck : pipeline.ledger.strike? outline.index (siteOf method.index candidate) with
        | none =>
          rw [run_edits_cons_of_missing known struck] at done
          cases done
        | some next =>
          by_cases fine : Replaceable method (outline, candidate)
          · rw [run_edits_cons_of_struck known struck fine, run_bind_eq_ok_iff] at done
            obtain ⟨_, _, rest, _⟩ := done
            exact later rest
          · obtain ⟨_, _, failed⟩ := run_edits_cons_of_refused known struck fine found
            rw [failed] at done
            cases done

theorem sound_of_run_rewriteMethod {result : Method}
    (done : (rewriteMethod method).run pipeline = .ok result final) :
    Sound pipeline.options.limits method := by
  unfold rewriteMethod at done
  rw [run_bind_of_ok _ (EStateM.run_get _), run_bind_eq_ok_iff] at done
  obtain ⟨_, _, edited, _⟩ := done
  obtain ⟨candidates, same⟩ := exists_candidates_of_run_edits edited
  intro result member
  rw [same] at member
  obtain ⟨candidate, _, rfl⟩ := List.mem_map.mp member
  exact ⟨candidate, rfl⟩

/-- Rewriting the methods of a valid program, one after the other, keeps the program at each
step. -/
theorem kept_of_rewriteAll (valid : original.complaint? = none) {items : List (Method × Nat)}
    (listed : ∀ item ∈ items, original.methods[item.2]? = some item.1) :
    Keeps (fun pipeline => original.Kept pipeline.program) (rewriteAll selection items) := by
  induction items with
  | nil => exact fun _ held => held
  | cons item items inductionHypothesis =>
    obtain ⟨method, place⟩ := item
    rw [List.forall_mem_cons] at listed
    have others := inductionHypothesis listed.2
    cases picked : isChosen selection method with
    | false =>
      rw [rewriteAll_cons_of_not_chosen place items picked]
      exact others
    | true =>
      intro pipeline held
      rw [rewriteAll_cons_of_chosen place items picked]
      have keeps : Keeps (fun other => original.Kept other.program) (rewriteMethod method) :=
        keeps_rewriteMethod (fun _ _ _ held => held) method
      have kept : original.Kept (left ((rewriteMethod method).run pipeline)).program :=
        keeps pipeline held
      refine holds_of_bind (fun other => original.Kept other.program) _ kept
        fun result middle done => ?_
      rw [done] at kept
      obtain ⟨ledger, _, _, rfl, rfl⟩ :=
        (run_rewriteMethod_eq_ok_iff (sound_of_run_rewriteMethod done)).mp done
      rw [left_bind_of_ok _ (run_replaceMethod ..)]
      apply others
      have sound := defect?_rewritten pipeline.outlines pipeline.options.limits
        (valid_of_mem valid (List.mem_of_getElem? listed.1))
      rw [rewritten_eq] at sound ⊢
      exact kept.set listed.1 sound

theorem defect?_of_run_build {type : Descriptor} {first : MethodIndex} {holder : Holder}
    (done : (build type first).run pipeline = .ok holder final) :
    ∀ method ∈ holder.methods, method.defect? = none := by
  obtain ⟨_, _, outlines, built, _⟩ := of_run_build done
  obtain ⟨_, made, all, rfl, _⟩ := Holder.build_eq_ok_iff.mp built
  intro method listed
  obtain ⟨result, member, rfl⟩ := List.mem_map.mp listed
  obtain ⟨place, found⟩ := List.mem_iff_getElem?.mp member
  obtain ⟨_, _, making⟩ := (Holder.made_of_outlines all place).1 result found
  exact (Template.of_body_eq_ok making.body).2.2.2.2

theorem program_left_perform {step : Step} (reads : ∀ selection, step ≠ .rewrite selection) :
    (left (step.perform.run pipeline)).program = pipeline.program := by
  by_cases ready : pipeline.phase = step.origin
  · have stands {phase : Phase} {final : Pipeline}
        (same : final.standing = { pipeline with phase := phase }.standing) :
        final.program = pipeline.program := congrArg (·.2.1) same
    cases step with
    | survey => exact stands (standing_left_survey ready)
    | select =>
      rw [Step.perform, left_bind_pure]
      exact stands (standing_left_select ready)
    | record selection => exact stands (standing_left_record selection ready)
    | build type first =>
      rw [Step.perform, left_bind_pure]
      cases used : pipeline.ledger.isEmpty with
      | true => rw [run_build_of_isEmpty type first ready used, left]
      | false =>
        rcases left_build_cases type first ready used with ⟨holder, outlines, done⟩ | failed
        · rw [done]
          rfl
        · rw [failed]
    | rewrite selection => exact absurd rfl (reads selection)
  · rw [Step.run_perform_of_ne step ready, left]

section Preserves

variable {α β : Type} {pass : Pass α}

/-- Whether a pass keeps valid programs, both if it succeeds and if it fails half-way. -/
def Preserves (pass : Pass α) : Prop :=
  ∀ pipeline : Pipeline, pipeline.program.complaint? = none →
    pipeline.program.Kept (left (pass.run pipeline)).program

theorem preserves_of_program
    (same : ∀ pipeline : Pipeline, (left (pass.run pipeline)).program = pipeline.program) :
    Preserves pass := by
  intro pipeline valid
  rw [same]
  exact Program.kept_refl valid

theorem Preserves.bind {next : α → Pass β} (first : Preserves pass)
    (goes : ∀ before item after, pass.run before = .ok item after → Preserves (next item)) :
    Preserves (pass >>= next) := by
  intro pipeline valid
  have kept := first pipeline valid
  refine holds_of_bind (fun other => pipeline.program.Kept other.program) next kept
    fun item middle done => ?_
  rw [done] at kept
  exact kept.trans (goes pipeline item middle done middle kept.valid)

end Preserves

theorem preserves_rewrite (selection : List MethodIndex) : Preserves (rewrite selection) := by
  intro pipeline valid
  by_cases ready : pipeline.phase = .built
  · refine holds_left_rewrite (fun other => pipeline.program.Kept other.program) ready
      (Program.kept_refl valid) (kept_of_rewriteAll valid fun item listed => ?_)
    exact List.mem_zipIdx_iff_getElem?.mp listed
  · have refused := Step.run_perform_of_ne (.rewrite selection) ready
    rw [Step.perform] at refused
    rw [refused]
    exact Program.kept_refl valid

/-- Every step keeps a valid program. -/
theorem preserves_perform (step : Step) : Preserves step.perform := by
  by_cases rewrites : ∃ selection, step = .rewrite selection
  · obtain ⟨selection, rfl⟩ := rewrites
    exact preserves_rewrite selection
  · exact preserves_of_program fun _ =>
      program_left_perform fun selection same => rewrites ⟨selection, same⟩

/-- A run keeps a valid program, since each of its steps does, and the methods that it appends are
valid. -/
theorem preserves_run : Preserves run := by
  unfold run
  refine (preserves_of_program fun _ => rfl).bind fun _ created _ _ => ?_
  split
  · exact preserves_of_program fun _ => rfl
  refine (preserves_perform .survey).bind fun _ _ _ _ => ?_
  refine (show Preserves select from fun pipeline valid => ?_).bind fun _ selection _ _ => ?_
  · have kept := preserves_perform .select pipeline valid
    rwa [Step.perform, left_bind_pure] at kept
  refine (preserves_perform (.record selection)).bind fun _ _ _ _ => ?_
  refine (preserves_of_program fun _ => rfl).bind fun _ recorded _ _ => ?_
  split
  · exact preserves_of_program fun _ => rfl
  refine (show Preserves (build _ _) from fun pipeline valid => ?_).bind
    fun _ holder _ built => ?_
  · have kept := preserves_perform (.build recorded.options.holderType
      recorded.program.methods.length) pipeline valid
    rwa [Step.perform, left_bind_pure] at kept
  split
  · exact preserves_of_program fun _ => rfl
  refine (preserves_rewrite selection).bind fun _ _ _ _ => ?_
  refine Preserves.bind (fun pipeline valid => ?_) fun _ _ _ _ => ?_
  · exact (Program.kept_refl valid).appendAll (defect?_of_run_build built)
  · exact preserves_of_program fun _ => rfl

/-- Outlining preserves validity: whatever a pipeline is asked for, in whatever state it is, and
whether it succeeds or fails half-way, a valid program stays valid, and the methods that were there
keep their index, reference, types and flag. -/
theorem program_kept {pipeline : Pipeline} (valid : pipeline.program.complaint? = none)
    (call : Call) : pipeline.program.Kept (left (call.perform.run pipeline)).program := by
  cases call with
  | step step => exact preserves_perform step pipeline valid
  | run =>
    have kept := preserves_run pipeline valid
    rwa [← left_bind_pure run pipeline PUnit.unit] at kept

/-- A pipeline with a holder for the sites of the first of two methods. -/
def halfRecorded : Pipeline :=
  left ((prepare ⟨[refinesSum, { refinesSum with index := 1 }]⟩ [0] .object 2).run
    (start eager ⟨[]⟩))

/-- A rewriting step that has changed the first method, and stops at a site of the second one that
was not recorded. -/
theorem program_kept_where_rewriting_stops :
    halfRecorded.program.complaint? = none ∧
      fault? ((Call.step (.rewrite [0, 1])).perform.run halfRecorded) =
        some (.siteNotFound refinesSum.reference 0 2 3) ∧
      (left ((Call.step (.rewrite [0, 1])).perform.run halfRecorded)).program ≠
        halfRecorded.program ∧
      halfRecorded.program.Kept
        (left ((Call.step (.rewrite [0, 1])).perform.run halfRecorded)).program := by
  have valid : halfRecorded.program.complaint? = none := by decide +kernel
  exact ⟨valid, by decide +kernel, by decide +kernel, program_kept valid (.step (.rewrite [0, 1]))⟩

end Pipeline

end Outlining
