import Outlining.Pipeline
import Outlining.Proofs.Ledger

namespace Outlining.Pipeline

open Outlining.Bytecode Outlining.Window

variable {pipeline final : Pipeline} {method : Method} {limits : Limits}

section Pass

variable {α β : Type}

/-- Whether a pass succeeds, and what it returns and leaves passes a check. -/
def succeeds (check : α → Pipeline → Bool) : EStateM.Result Fault Pipeline α → Bool
  | .ok item final => check item final
  | .error _ _ => false

theorem exists_of_succeeds {check : α → Pipeline → Bool} {pass : Pass α}
    (passes : succeeds check (pass.run pipeline) = true) :
    ∃ item final, pass.run pipeline = .ok item final ∧ check item final = true := by
  cases done : pass.run pipeline with
  | ok item final =>
    rw [done] at passes
    exact ⟨item, final, rfl, passes⟩
  | error fault final =>
    rw [done] at passes
    cases passes

theorem run_bind_of_ok {first : Pass α} {item : α} (next : α → Pass β)
    (done : first.run pipeline = .ok item final) :
    (first >>= next).run pipeline = (next item).run final := by
  rw [EStateM.run_bind, done]

theorem run_bind_eq_ok_iff {first : Pass α} {next : α → Pass β} {value : β} :
    (first >>= next).run pipeline = .ok value final ↔
      ∃ item middle, first.run pipeline = .ok item middle ∧
        (next item).run middle = .ok value final := by
  rw [EStateM.run_bind]
  cases first.run pipeline with
  | ok item middle => simp
  | error fault middle => simp

/-- A loop whose body succeeds, as long as something holds that the body keeps, makes the changes
one after the other. -/
theorem run_forM (items : List α) (action : α → Pass PUnit) (change : Pipeline → α → Pipeline)
    (holds : Pipeline → Prop) (start : holds pipeline)
    (acts : ∀ item ∈ items, ∀ pipeline, holds pipeline →
      (action item).run pipeline = .ok ⟨⟩ (change pipeline item) ∧ holds (change pipeline item)) :
    (items.forM action).run pipeline = .ok ⟨⟩ (items.foldl change pipeline) ∧
      holds (items.foldl change pipeline) := by
  induction items generalizing pipeline with
  | nil => exact ⟨rfl, start⟩
  | cons item items inductionHypothesis =>
    obtain ⟨done, kept⟩ := acts item List.mem_cons_self pipeline start
    rw [List.forM, run_bind_of_ok _ done]
    exact inductionHypothesis kept fun other member => acts other (List.mem_cons_of_mem _ member)

end Pass

theorem run_advance {expected : Phase} (next : Phase) (ready : pipeline.phase = expected) :
    (advance expected next).run pipeline = .ok ⟨⟩ { pipeline with phase := next } := by
  unfold advance
  simp [ready]

theorem run_count (change : Statistics → Statistics) (pipeline : Pipeline) :
    (count change).run pipeline =
      .ok ⟨⟩ { pipeline with statistics := change pipeline.statistics } := rfl

/-- The windows found that broke no assertion. -/
def found (limits : Limits) (method : Method) : List Candidate :=
  (method.scan limits).filterMap (·.toOption)

/-- Whether no window of a method breaks an assertion. -/
def Sound (limits : Limits) (method : Method) : Prop :=
  ∀ found ∈ method.scan limits, ∃ candidate, found = .ok candidate

theorem Sound.scan_eq (sound : Sound limits method) :
    method.scan limits = (found limits method).map .ok := by
  unfold found
  unfold Sound at sound
  generalize method.scan limits = results at sound ⊢
  induction results with
  | nil => rfl
  | cons first rest inductionHypothesis =>
    obtain ⟨candidate, rfl⟩ := sound first List.mem_cons_self
    have first : Except.toOption (.ok candidate : Found) = some candidate := rfl
    rw [List.filterMap_cons_some first, List.map_cons,
      ← inductionHypothesis fun other member => sound other (List.mem_cons_of_mem _ member)]

theorem mem_found_iff {candidate : Candidate} :
    candidate ∈ found limits method ↔ .ok candidate ∈ method.scan limits := by
  simp only [found, List.mem_filterMap]
  constructor
  · rintro ⟨result, member, same⟩
    cases result with
    | error assertion => cases same
    | ok other =>
      cases same
      exact member
  · intro member
    exact ⟨_, member, rfl⟩

/-- An action on every window succeeds if no window is an error. -/
theorem run_forEachCandidate {action : Candidate → Pass Unit}
    (change : Pipeline → Candidate → Pipeline) (sound : Sound pipeline.options.limits method)
    (acts : ∀ candidate pipeline, (action candidate).run pipeline = .ok ⟨⟩ (change pipeline candidate)) :
    (forEachCandidate method action).run pipeline =
      .ok ⟨⟩ ((found pipeline.options.limits method).foldl change pipeline) := by
  unfold forEachCandidate
  rw [run_bind_of_ok _ (EStateM.run_get _), sound.scan_eq]
  refine (run_forM _ _ (fun pipeline result => (result.toOption.map (change pipeline)).getD pipeline)
    (fun _ => True) trivial ?_).1.trans ?_
  · intro result member pipeline _
    obtain ⟨candidate, _, rfl⟩ := List.mem_map.mp member
    exact ⟨acts candidate pipeline, trivial⟩
  · rw [List.foldl_map]
    rfl

/-- The part of a pipeline that the first pass does not change. -/
def frame (pipeline : Pipeline) : Options × Program × Phase × Ledger × List Outline :=
  (pipeline.options, pipeline.program, pipeline.phase, pipeline.ledger, pipeline.outlines)

/-- What a candidate changes in the first pass. -/
def surveyed (method : MethodIndex) (pipeline : Pipeline) (candidate : Candidate) : Pipeline :=
  { pipeline with
    census := pipeline.census.record candidate.template method
    statistics := { pipeline.statistics with candidates := pipeline.statistics.candidates + 1 } }

def surveyedMethod (limits : Limits) (pipeline : Pipeline) (method : Method) : Pipeline :=
  (found limits method).foldl (surveyed method.index) { pipeline with statistics :=
    { pipeline.statistics with methodsScanned := pipeline.statistics.methodsScanned + 1 } }

def noted (limits : Limits) (census : Census) (method : Method) : Census :=
  (found limits method).foldl (fun census candidate => census.record candidate.template method.index)
    census

theorem foldl_surveyed (method : MethodIndex) (candidates : List Candidate)
    (pipeline : Pipeline) :
    candidates.foldl (surveyed method) pipeline =
      { pipeline with
        census := candidates.foldl
          (fun census candidate => census.record candidate.template method) pipeline.census
        statistics := { pipeline.statistics with
          candidates := pipeline.statistics.candidates + candidates.length } } := by
  induction candidates generalizing pipeline with
  | nil => rfl
  | cons candidate candidates inductionHypothesis =>
    rw [List.foldl_cons, inductionHypothesis]
    simp [surveyed, Nat.add_assoc, Nat.add_comm 1]

theorem foldl_surveyedMethod (limits : Limits) (methods : List Method) (pipeline : Pipeline) :
    methods.foldl (surveyedMethod limits) pipeline =
      { pipeline with
        census := methods.foldl (noted limits) pipeline.census
        statistics := { pipeline.statistics with
          methodsScanned := pipeline.statistics.methodsScanned + methods.length
          candidates := pipeline.statistics.candidates +
            (methods.flatMap (found limits)).length } } := by
  induction methods generalizing pipeline with
  | nil => rfl
  | cons method methods inductionHypothesis =>
    rw [List.foldl_cons, inductionHypothesis, surveyedMethod, foldl_surveyed]
    simp [noted, Nat.add_assoc, Nat.add_comm 1]

theorem run_surveyCandidate (method : MethodIndex) (candidate : Candidate)
    (pipeline : Pipeline) :
    (surveyCandidate method candidate).run pipeline = .ok ⟨⟩ (surveyed method pipeline candidate) :=
  rfl

/-- The first pass succeeds from its phase, and changes nothing but the census, the statistics and
the phase. -/
theorem run_survey (created : pipeline.phase = .created)
    (sound : ∀ method ∈ pipeline.program.methods, method.synthetic = false →
      Sound pipeline.options.limits method) :
    survey.run pipeline = .ok ⟨⟩ { pipeline with
      phase := .surveyed
      census := (pipeline.program.methods.filter (!·.synthetic)).foldl
        (noted pipeline.options.limits) pipeline.census
      statistics := { pipeline.statistics with
        methodsScanned := pipeline.statistics.methodsScanned +
          (pipeline.program.methods.filter (!·.synthetic)).length
        candidates := pipeline.statistics.candidates +
          ((pipeline.program.methods.filter (!·.synthetic)).flatMap
            (found pipeline.options.limits)).length
        templates := ((pipeline.program.methods.filter (!·.synthetic)).foldl
          (noted pipeline.options.limits) pipeline.census).size } } := by
  unfold survey
  rw [run_bind_of_ok _ (run_advance .surveyed created), run_bind_of_ok _ (EStateM.run_get _)]
  have looped := run_forM (pipeline.program.methods.filter (!·.synthetic))
    (fun method => do
      count fun statistics => { statistics with methodsScanned := statistics.methodsScanned + 1 }
      forEachCandidate method (surveyCandidate method.index))
    (surveyedMethod pipeline.options.limits)
    (·.frame = { pipeline with phase := .surveyed }.frame) rfl ?_
  · rw [run_bind_of_ok _ looped.1, foldl_surveyedMethod]
    rfl
  · intro method member state kept
    have options : state.options = pipeline.options := congrArg Prod.fst kept
    simp only [List.mem_filter, Bool.not_eq_true'] at member
    rw [run_bind_of_ok _ (run_count _ state), run_forEachCandidate (surveyed method.index)
      (options ▸ sound method member.1 member.2) (run_surveyCandidate method.index)]
    refine ⟨by rw [surveyedMethod, ← options], ?_⟩
    rw [surveyedMethod, foldl_surveyed]
    exact kept

theorem run_select (ready : pipeline.phase = .surveyed) :
    select.run pipeline = .ok (pipeline.census.select pipeline.options.methodThreshold)
      { pipeline with
        phase := .selected
        census := .empty
        statistics := { pipeline.statistics with
          methodsSelected :=
            (pipeline.census.select pipeline.options.methodThreshold).length } } := by
  unfold select
  rw [run_bind_of_ok _ (run_advance .selected ready)]
  rfl

/-- The sites of a method with their templates. -/
def entriesOf (limits : Limits) (method : Method) : List (Template × Site) :=
  (found limits method).map fun candidate => (candidate.template, siteOf method.index candidate)

def chosen (selection : List MethodIndex) (program : Program) : List Method :=
  program.methods.filter (isChosen selection)

def recorded (method : MethodIndex) (pipeline : Pipeline) (candidate : Candidate) : Pipeline :=
  { pipeline with
    ledger := (pipeline.ledger.record candidate.template (siteOf method candidate)).1
    statistics := { pipeline.statistics with sites := pipeline.statistics.sites + 1 } }

theorem run_recordCandidate (method : MethodIndex) (candidate : Candidate)
    (pipeline : Pipeline) :
    (recordCandidate method candidate).run pipeline = .ok ⟨⟩ (recorded method pipeline candidate) :=
  rfl

theorem foldl_recorded (method : MethodIndex) (candidates : List Candidate)
    (pipeline : Pipeline) :
    candidates.foldl (recorded method) pipeline =
      { pipeline with
        ledger := pipeline.ledger.recordAll (candidates.map fun candidate =>
          (candidate.template, siteOf method candidate))
        statistics := { pipeline.statistics with
          sites := pipeline.statistics.sites + candidates.length } } := by
  induction candidates generalizing pipeline with
  | nil => rfl
  | cons candidate candidates inductionHypothesis =>
    rw [List.foldl_cons, inductionHypothesis]
    simp [recorded, Ledger.recordAll, Nat.add_assoc, Nat.add_comm 1]

def recordedMethod (limits : Limits) (pipeline : Pipeline) (method : Method) : Pipeline :=
  { pipeline with
    ledger := pipeline.ledger.recordAll (entriesOf limits method)
    statistics := { pipeline.statistics with
      sites := pipeline.statistics.sites + (entriesOf limits method).length } }

theorem foldl_recordedMethod (limits : Limits) (methods : List Method) (pipeline : Pipeline) :
    methods.foldl (recordedMethod limits) pipeline =
      { pipeline with
        ledger := pipeline.ledger.recordAll (methods.flatMap (entriesOf limits))
        statistics := { pipeline.statistics with
          sites := pipeline.statistics.sites + (methods.flatMap (entriesOf limits)).length } } := by
  induction methods generalizing pipeline with
  | nil => rfl
  | cons method methods inductionHypothesis =>
    rw [List.foldl_cons, inductionHypothesis]
    simp [recordedMethod, Ledger.recordAll, List.foldl_append, Nat.add_assoc]

/-- The second pass succeeds from its phase, and records the sites of the chosen methods. -/
theorem run_record (selection : List MethodIndex) (ready : pipeline.phase = .selected)
    (sound : ∀ method ∈ pipeline.program.methods, method.synthetic = false →
      Sound pipeline.options.limits method) :
    (record selection).run pipeline = .ok ⟨⟩ { pipeline with
      phase := .recorded
      ledger := pipeline.ledger.recordAll
        ((chosen selection pipeline.program).flatMap (entriesOf pipeline.options.limits))
      statistics := { pipeline.statistics with
        sites := pipeline.statistics.sites +
          ((chosen selection pipeline.program).flatMap
            (entriesOf pipeline.options.limits)).length } } := by
  unfold record
  rw [run_bind_of_ok _ (run_advance .recorded ready), run_bind_of_ok _ (EStateM.run_get _)]
  refine (run_forM _ _ (recordedMethod pipeline.options.limits)
    (·.options = pipeline.options) ?_ ?_).1.trans ?_
  · rfl
  · intro method member state kept
    simp only [List.mem_filter, isChosen, Bool.and_eq_true, Bool.not_eq_true'] at member
    rw [run_forEachCandidate (recorded method.index)
      (by rw [kept]; exact sound method member.1 member.2.1) (run_recordCandidate method.index)]
    rw [foldl_recorded, recordedMethod, entriesOf, ← kept, List.length_map]
    exact ⟨rfl, rfl⟩
  · rw [foldl_recordedMethod]
    rfl

/-- The pipeline after a holder was built. -/
def builtWith (pipeline : Pipeline) (holder : Holder) (outlines : List Outline) : Pipeline :=
  { pipeline with
    phase := .built
    outlines := outlines
    statistics := { pipeline.statistics with outlines := holder.methods.length } }

/-- Building succeeds if there are sites and the templates selected have outlines. -/
theorem run_build_eq_ok_iff (type : Descriptor) (first : MethodIndex) {holder : Holder}
    (ready : pipeline.phase = .recorded) (used : pipeline.ledger.isEmpty = false) :
    (build type first).run pipeline = .ok holder final ↔
      ∃ outlines, Holder.build type pipeline.options.nameStem first
          (pipeline.ledger.select pipeline.options.siteThreshold) = .ok (holder, outlines) ∧
        final = pipeline.builtWith holder outlines := by
  unfold build
  rw [run_bind_of_ok _ (EStateM.run_get _), if_neg (by simp [used]),
    run_bind_of_ok _ (run_advance .built ready), run_bind_of_ok _ (EStateM.run_get _)]
  cases Holder.build type pipeline.options.nameStem first
    (pipeline.ledger.select pipeline.options.siteThreshold) with
  | error fault =>
    refine ⟨nofun, ?_⟩
    rintro ⟨_, built, _⟩
    cases built
  | ok result =>
    obtain ⟨made, outlines⟩ := result
    constructor
    · intro done
      cases done
      exact ⟨outlines, rfl, rfl⟩
    · rintro ⟨_, built, rfl⟩
      cases built
      rfl

end Outlining.Pipeline
