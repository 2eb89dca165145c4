import Outlining.Proofs.Pipeline.Outcome

namespace Outlining

open Outlining.Bytecode

/-- A step of a pipeline, with what it is given. -/
inductive Step where
  | survey
  | select
  | record (selection : List MethodIndex)
  | build (type : Descriptor) (first : MethodIndex)
  | rewrite (selection : List MethodIndex)
deriving DecidableEq, Inhabited

inductive Call where
  | step (step : Step)
  | run
deriving DecidableEq, Inhabited

/-- Whether a step was not begun at all: it is not its turn, or there is nothing to work on. -/
def Fault.isRefusal : Fault → Bool
  | .passOrder _ _ | .noSitesRecorded => true
  | _ => false

namespace Step

def origin : Step → Phase
  | .survey => .created
  | .select => .surveyed
  | .record _ => .selected
  | .build _ _ => .recorded
  | .rewrite _ => .built

/-- The phase to which a step leads. -/
def target : Step → Phase
  | .survey => .surveyed
  | .select => .selected
  | .record _ => .recorded
  | .build _ _ => .built
  | .rewrite _ => .rewritten

/-- Takes a step, and forgets what it returns. -/
def perform : Step → Pipeline.Pass Unit
  | .survey => Pipeline.survey
  | .select => do
    let _ ← Pipeline.select
  | .record selection => Pipeline.record selection
  | .build type first => do
    let _ ← Pipeline.build type first
  | .rewrite selection => Pipeline.rewrite selection

/-- The faults that a step may meet once it has begun. -/
inductive Meets : Step → Fault → Prop where
  | survey {assertion : Assertion} : Meets .survey (.assertion assertion)
  | record {selection : List MethodIndex} {assertion : Assertion} :
      Meets (.record selection) (.assertion assertion)
  | build {type : Descriptor} {first : MethodIndex} {assertion : Assertion} :
      Meets (.build type first) (.assertion assertion)
  | mismatch {type : Descriptor} {first : MethodIndex} {template : Template}
      {flaw : Template.Flaw} : Meets (.build type first) (.signatureMismatch template flaw)
  | rewrite {selection : List MethodIndex} {assertion : Assertion} :
      Meets (.rewrite selection) (.assertion assertion)
  | missing {selection : List MethodIndex} {method : Reference} {block : Label}
      {start stop : Nat} : Meets (.rewrite selection) (.siteNotFound method block start stop)
  | leftover {selection : List MethodIndex} {outline : Reference} {remaining : Nat} :
      Meets (.rewrite selection) (.sitesRemaining outline remaining)

theorem rank_target (step : Step) : step.target.rank = step.origin.rank + 1 := by
  cases step <;> rfl

theorem rank_origin_le (step : Step) : step.origin.rank ≤ Phase.built.rank := by
  cases step <;> simp [origin, Phase.rank]

theorem eq_rewrite_of_lt (step : Step) (later : Phase.recorded.rank < step.origin.rank) :
    ∃ selection, step = .rewrite selection := by
  cases step with
  | rewrite selection => exact ⟨selection, rfl⟩
  | survey | select | record | build => simp [origin, Phase.rank] at later

theorem Meets.isRefusal_eq {step : Step} {fault : Fault} (meets : step.Meets fault) :
    fault.isRefusal = false := by
  cases meets <;> rfl

end Step

namespace Pipeline

variable {pipeline : Pipeline} {fault : Fault}

section Build

variable {type : Descriptor} {stem : String} {first number : Nat}
  {templates : List (TemplateIndex × Template)}

theorem meets_of_outline_eq_error {index : TemplateIndex} {template : Template}
    (failed : Holder.outline type stem first number index template = .error fault) :
    (Step.build type first).Meets fault := by
  unfold Holder.outline at failed
  split at failed
  · cases failed
    exact .mismatch
  · dsimp only at failed
    split at failed
    · cases failed
      exact .build
    · split at failed
      · cases failed
        exact .mismatch
      · cases failed

theorem meets_of_outlines_eq_error
    (failed : Holder.outlines type stem first number templates = .error fault) :
    (Step.build type first).Meets fault := by
  induction templates generalizing number with
  | nil => cases failed
  | cons entry templates inductionHypothesis =>
    unfold Holder.outlines at failed
    split at failed
    · rename_i one
      cases failed
      exact meets_of_outline_eq_error one
    · split at failed
      · rename_i others
        cases failed
        exact inductionHypothesis others
      · cases failed

/-- Templates that have no outline are the only reason but a broken assertion for which no holder
is built. -/
theorem meets_of_build_eq_error
    (failed : Holder.build type stem first templates = .error fault) :
    (Step.build type first).Meets fault := by
  unfold Holder.build at failed
  split at failed
  · cases failed
    exact .build
  · split at failed
    · rename_i all
      cases failed
      exact meets_of_outlines_eq_error all
    · cases failed

end Build

theorem meets_of_survey (ready : pipeline.phase = .created)
    (failed : fault? (survey.run pipeline) = some fault) : Step.survey.Meets fault := by
  unfold survey at failed
  rw [run_bind_of_ok _ (run_advance .surveyed ready), run_bind_of_ok _ (EStateM.run_get _)]
    at failed
  refine Raises.bind (raises_forM fun method _ => ?_) (fun _ => ?_) _ fault failed
  · refine Raises.bind (fun _ _ => nofun) fun _ => ?_
    exact raises_forEachCandidate method (fun _ => .survey) fun candidate _ _ => nofun
  · exact fun _ _ => nofun

theorem fault?_select (ready : pipeline.phase = .surveyed) :
    fault? (select.run pipeline) = none := by
  unfold select
  rw [run_bind_of_ok _ (run_advance .selected ready)]
  rfl

theorem meets_of_record {selection : List MethodIndex} (ready : pipeline.phase = .selected)
    (failed : fault? ((record selection).run pipeline) = some fault) :
    (Step.record selection).Meets fault := by
  unfold record at failed
  rw [run_bind_of_ok _ (run_advance .recorded ready), run_bind_of_ok _ (EStateM.run_get _)]
    at failed
  refine raises_forM (fun method _ => ?_) _ fault failed
  exact raises_forEachCandidate method (fun _ => .record) fun candidate _ _ => nofun

theorem meets_of_build {type : Descriptor} {first : MethodIndex}
    (ready : pipeline.phase = .recorded) (used : pipeline.ledger.isEmpty = false)
    (failed : fault? ((build type first).run pipeline) = some fault) :
    (Step.build type first).Meets fault := by
  unfold build at failed
  rw [run_bind_of_ok _ (EStateM.run_get _), if_neg (by simp [used]),
    run_bind_of_ok _ (run_advance .built ready), run_bind_of_ok _ (EStateM.run_get _)] at failed
  dsimp only at failed
  split at failed
  · rename_i built
    cases failed
    exact meets_of_build_eq_error built
  · cases failed

theorem meets_of_rewrite {selection : List MethodIndex} (ready : pipeline.phase = .built)
    (failed : fault? ((rewrite selection).run pipeline) = some fault) :
    (Step.rewrite selection).Meets fault :=
  raises_rewrite (fun _ => .rewrite) (fun _ _ _ _ => .missing) selection (fun _ _ => .leftover)
    ready failed

end Pipeline

open Pipeline

namespace Step

variable {pipeline : Pipeline}

/-- A step is refused outside of its phase, and changes nothing. -/
theorem run_perform_of_ne (step : Step) (differs : pipeline.phase ≠ step.origin) :
    step.perform.run pipeline = .error (.passOrder step.origin pipeline.phase) pipeline := by
  cases step with
  | survey => exact run_advance_bind_of_ne _ differs
  | select =>
    have refused : Pipeline.select.run pipeline = _ := run_advance_bind_of_ne _ differs
    rw [perform, EStateM.run_bind, refused]
    rfl
  | record selection => exact run_advance_bind_of_ne _ differs
  | build type first =>
    rw [perform, EStateM.run_bind, run_build_of_ne type first differs]
    rfl
  | rewrite selection => exact run_advance_bind_of_ne _ differs

/-- What a step does to a pipeline: it is refused and changes nothing, since it is not its turn or
since no site was recorded, or it begins. A step that has begun goes to its next phase, whether it
succeeds or fails, and only one that builds a holder makes outlines. -/
inductive Outcome (step : Step) (pipeline : Pipeline) : Prop where
  | outside (differs : pipeline.phase ≠ step.origin)
      (refused : step.perform.run pipeline =
        .error (.passOrder step.origin pipeline.phase) pipeline)
  | unused (ready : pipeline.phase = step.origin) (builds : step.origin = .recorded)
      (empty : pipeline.ledger.isEmpty = true)
      (refused : step.perform.run pipeline = .error .noSitesRecorded pipeline)
  | begun (ready : pipeline.phase = step.origin)
      (phase : (left (step.perform.run pipeline)).phase = step.target)
      (options : (left (step.perform.run pipeline)).options = pipeline.options)
      (outlines : step.origin = .recorded ∧ fault? (step.perform.run pipeline) = none ∨
        (left (step.perform.run pipeline)).outlines = pipeline.outlines)
      (meets : ∀ fault, fault? (step.perform.run pipeline) = some fault → step.Meets fault)

theorem outcome_build (type : Descriptor) (first : MethodIndex)
    (ready : pipeline.phase = .recorded) : (build type first).Outcome pipeline := by
  cases used : pipeline.ledger.isEmpty with
  | true =>
    refine .unused ready rfl used ?_
    rw [perform, EStateM.run_bind, run_build_of_isEmpty type first ready used]
  | false =>
    have meets (fault : Fault)
        (failed : fault? ((build type first).perform.run pipeline) = some fault) :
        (build type first).Meets fault := by
      rw [perform, fault?_bind_pure] at failed
      exact meets_of_build ready used failed
    rcases left_build_cases type first ready used with ⟨holder, outlines, done⟩ | failed
    · have same : (build type first).perform.run pipeline =
          .ok ⟨⟩ (pipeline.builtWith holder outlines) := by
        rw [perform, EStateM.run_bind, done]
        rfl
      refine .begun ready ?_ ?_ (.inl ⟨rfl, ?_⟩) meets
      · rw [same]
        rfl
      · rw [same]
        rfl
      · rw [same]
        rfl
    · have same : left ((build type first).perform.run pipeline) =
          { pipeline with phase := .built } := by
        rw [perform, left_bind_pure]
        exact failed
      refine .begun ready ?_ ?_ (.inr ?_) meets
      · rw [same]
        rfl
      · rw [same]
      · rw [same]

theorem outcome (step : Step) (pipeline : Pipeline) : step.Outcome pipeline := by
  by_cases ready : pipeline.phase = step.origin
  · have looks {phase : Phase} (here : phase = step.target)
        (same : (left (step.perform.run pipeline)).standing =
          { pipeline with phase := phase }.standing)
        (meets : ∀ fault, fault? (step.perform.run pipeline) = some fault → step.Meets fault) :
        step.Outcome pipeline := by
      simp only [standing, Prod.mk.injEq] at same
      exact .begun ready (here ▸ same.2.2.1) same.1 (.inr same.2.2.2) meets
    cases step with
    | survey => exact looks rfl (standing_left_survey ready) fun _ => meets_of_survey ready
    | select =>
      refine looks rfl ?_ fun fault failed => ?_
      · rw [perform, left_bind_pure]
        exact standing_left_select ready
      · rw [perform, fault?_bind_pure, fault?_select ready] at failed
        cases failed
    | record selection =>
      exact looks rfl (standing_left_record selection ready) fun _ => meets_of_record ready
    | build type first => exact outcome_build type first ready
    | rewrite selection =>
      obtain ⟨phase, options, outlines⟩ := phase_left_rewrite selection ready
      exact .begun ready phase options (.inr outlines) fun _ => meets_of_rewrite ready
  · exact .outside ready (run_perform_of_ne step ready)

end Step

def Call.perform : Call → Pass Unit
  | .step taken => taken.perform
  | .run => do
    let _ ← Pipeline.run

end Outlining
