import Outlining.Proofs.Pipeline.Determination
import Outlining.Proofs.Pipeline.Validity

/-! The step collects all edits of a method before it applies the first one, and puts the method
into its place when all of them are applied. Wherever it stops, the chosen methods up to there have
all their windows replaced, and the other methods are as they were. -/
namespace Outlining.Pipeline

open Outlining.Bytecode Outlining.Rewriting Outlining.Window

variable {pipeline final : Pipeline} {method : Method} {selection : List MethodIndex}
  {fault : Fault} {limits : Limits} {outlines : List Outline} {program : Program}

/-- Whether a method has a window that has an outline but no site in the ledger, and the fault
tells so. -/
def Misses (outlines : List Outline) (limits : Limits) (ledger : Ledger) (method : Method)
    (fault : Fault) : Prop :=
  ∃ outline candidate, .ok candidate ∈ method.scan limits ∧
    outlineFor? outlines candidate.template = some outline ∧
    ledger.strike? outline.index (siteOf method.index candidate) = none ∧
    fault = .siteNotFound method.reference candidate.block candidate.start candidate.stop

/-- How far the rewriting step has come with a program: it has done the methods before `place`,
and has not begun with the others. -/
structure Reached (pipeline : Pipeline) (selection : List MethodIndex) (place : Nat)
    (program : Program) : Prop where
  count : program.methods.length = pipeline.program.methods.length
  replaced : ∀ index method, index < place → pipeline.program.methods[index]? = some method →
    isChosen selection method = true → ∃ result, program.methods[index]? = some result ∧
      Replacing pipeline.outlines pipeline.options.limits method result
  spared : ∀ index method, index < place → pipeline.program.methods[index]? = some method →
    isChosen selection method = false → program.methods[index]? = some method
  untouched : ∀ index, place ≤ index →
    program.methods[index]? = pipeline.program.methods[index]?

theorem exists_missing_of_run_edits {founds : List Found}
    (failed : (edits method founds).run pipeline = .error fault final)
    (missing : fault.IsMissing) :
    ∃ outline candidate, .ok candidate ∈ founds ∧
      outlineFor? pipeline.outlines candidate.template = some outline ∧
      final.ledger.strike? outline.index (siteOf method.index candidate) = none ∧
      fault = .siteNotFound method.reference candidate.block candidate.start candidate.stop := by
  have solid {assertion : Assertion} (same : Fault.assertion assertion = fault) : False := by
    subst same
    obtain ⟨_, _, _, _, same⟩ := missing
    cases same
  induction founds generalizing pipeline with
  | nil => cases failed
  | cons first founds inductionHypothesis =>
    have later {next : Pipeline}
        (failed : (edits method founds).run next = .error fault final)
        (same : next.outlines = pipeline.outlines) :
        ∃ outline candidate, .ok candidate ∈ first :: founds ∧
          outlineFor? pipeline.outlines candidate.template = some outline ∧
          final.ledger.strike? outline.index (siteOf method.index candidate) = none ∧
          fault = .siteNotFound method.reference candidate.block candidate.start
            candidate.stop := by
      obtain ⟨outline, candidate, member, known, rest⟩ := inductionHypothesis failed
      exact ⟨outline, candidate, List.mem_cons_of_mem _ member, same ▸ known, rest⟩
    cases first with
    | error assertion =>
      cases failed
      exact (solid rfl).elim
    | ok candidate =>
      cases known : outlineFor? pipeline.outlines candidate.template with
      | none =>
        rw [run_edits_cons_of_none known] at failed
        exact later failed rfl
      | some outline =>
        cases struck : pipeline.ledger.strike? outline.index (siteOf method.index candidate) with
        | none =>
          rw [run_edits_cons_of_missing known struck] at failed
          cases failed
          exact ⟨outline, candidate, List.mem_cons_self, known, struck, rfl⟩
        | some next =>
          by_cases fine : Replaceable method (outline, candidate)
          · rw [run_edits_cons_of_struck known struck fine, run_bind_eq_error_iff] at failed
            rcases failed with failed | ⟨_, _, _, added⟩
            · exact later failed rfl
            · cases added
          · obtain ⟨assertion, stopped, broken⟩ :=
              run_edits_cons_of_refused known struck fine founds
            rw [broken] at failed
            cases failed
            exact (solid rfl).elim

/-- Rewriting a method fails with its edits, before any of them is applied. -/
theorem run_rewriteMethod_eq_error_iff :
    (rewriteMethod method).run pipeline = .error fault final ↔
      (edits method (method.scan pipeline.options.limits)).run pipeline = .error fault final := by
  unfold rewriteMethod
  rw [run_bind_of_ok _ (EStateM.run_get _), run_bind_eq_error_iff, or_iff_left_iff_imp]
  rintro ⟨list, _, _, applied⟩
  cases list with
  | nil => cases applied
  | cons edit list => cases applied

/-- What the loop of the rewriting step has made of some methods when it comes to a stop or to its
end: those in `done` are done, and those in `rest` are as they were, the first of them being the
one at which it stopped. -/
structure Progress (outlines : List Outline) (limits : Limits) (selection : List MethodIndex)
    (before done rest : List Method) (result : EStateM.Result Fault Pipeline PUnit) : Prop where
  methods : (left result).program.methods =
    before ++ (done.map (outcome outlines limits selection) ++ rest)
  replaceable : ∀ method ∈ done, isChosen selection method = true →
    ∀ hit ∈ hits outlines (found limits method), Replaceable method hit
  stops : ∀ fault, fault.IsMissing → fault? result = some fault → ∃ method others,
    rest = method :: others ∧ isChosen selection method = true ∧
      Misses outlines limits (left result).ledger method fault

theorem Progress.cons {before done rest : List Method}
    {result : EStateM.Result Fault Pipeline PUnit}
    (progress : Progress outlines limits selection
      (before ++ [outcome outlines limits selection method]) done rest result)
    (fine : isChosen selection method = true →
      ∀ hit ∈ hits outlines (found limits method), Replaceable method hit) :
    Progress outlines limits selection before (method :: done) rest result where
  methods := by
    rw [progress.methods]
    simp
  replaceable := by
    rw [List.forall_mem_cons]
    exact ⟨fine, progress.replaceable⟩
  stops := progress.stops

/-- A method that cannot be done is left as it was, with those after it. -/
theorem progress_of_failed {before ahead : List Method}
    (standing : pipeline.program.methods = before ++ method :: ahead)
    (picked : isChosen selection method = true)
    (failed : (rewriteMethod method).run pipeline = .error fault final) :
    Progress pipeline.outlines pipeline.options.limits selection before [] (method :: ahead)
      (.error fault final) where
  methods := by
    have keeps : Keeps (·.program = pipeline.program) (rewriteMethod method) :=
      keeps_rewriteMethod (fun _ _ _ held => held) method
    have kept := keeps pipeline rfl
    rw [failed] at kept
    rw [List.map_nil, List.nil_append, ← standing]
    exact congrArg Program.methods kept
  replaceable := by simp
  stops := by
    rintro _ missing ⟨⟩
    refine ⟨method, ahead, rfl, picked, ?_⟩
    exact exists_missing_of_run_edits (run_rewriteMethod_eq_error_iff.mp failed) missing

/-- The loop does one method after the other, and begins with none that it cannot do. -/
theorem exists_progress {before ahead : List Method}
    (standing : pipeline.program.methods = before ++ ahead) :
    ∃ done rest, ahead = done ++ rest ∧
      Progress pipeline.outlines pipeline.options.limits selection before done rest
        ((rewriteAll selection (ahead.zipIdx before.length)).run pipeline) := by
  induction ahead generalizing before pipeline with
  | nil =>
    refine ⟨[], [], rfl, standing, by simp, fun fault _ failed => ?_⟩
    have ended : (rewriteAll selection []).run pipeline = .ok ⟨⟩ pipeline := rfl
    rw [List.zipIdx_nil, ended] at failed
    cases failed
  | cons method ahead inductionHypothesis =>
    have along : before.length + 1 = (before ++
        [outcome pipeline.outlines pipeline.options.limits selection method]).length := by simp
    rw [List.zipIdx_cons]
    cases picked : isChosen selection method with
    | false =>
      rw [rewriteAll_cons_of_not_chosen _ _ picked, along]
      obtain ⟨done, rest, rfl, progress⟩ := @inductionHypothesis pipeline
        (before ++ [outcome pipeline.outlines pipeline.options.limits selection method])
        (by simp [outcome, picked, standing])
      exact ⟨method :: done, rest, rfl, progress.cons (by simp [picked])⟩
    | true =>
      rw [rewriteAll_cons_of_chosen _ _ picked]
      cases one : (rewriteMethod method).run pipeline with
      | error fault stopped =>
        rw [run_bind_eq_error_iff.mpr (.inl one)]
        exact ⟨[], method :: ahead, rfl, progress_of_failed standing picked one⟩
      | ok result middle =>
        obtain ⟨ledger, _, replaceable, rfl, rfl⟩ :=
          (run_rewriteMethod_eq_ok_iff (sound_of_run_rewriteMethod one)).mp one
        rw [run_bind_of_ok _ one, run_bind_of_ok _ (run_replaceMethod ..), along]
        obtain ⟨done, rest, rfl, progress⟩ := @inductionHypothesis
          { pipeline with
            program := ⟨pipeline.program.methods.set before.length
              (rewritten pipeline.outlines pipeline.options.limits method)⟩
            ledger := ledger
            statistics :=
              tally pipeline.outlines pipeline.options.limits pipeline.statistics method }
          (before ++ [outcome pipeline.outlines pipeline.options.limits selection method])
          (by simp [outcome, picked, standing])
        exact ⟨method :: done, rest, rfl, progress.cons fun _ => replaceable⟩

theorem Progress.reached {done rest : List Method} {result : EStateM.Result Fault Pipeline PUnit}
    (valid : pipeline.program.complaint? = none)
    (standing : pipeline.program.methods = done ++ rest)
    (progress : Progress pipeline.outlines pipeline.options.limits selection [] done rest result) :
    Reached pipeline selection done.length (left result).program := by
  have methods := progress.methods
  rw [List.nil_append] at methods
  constructor
  · simp [methods, standing]
  · intro index method early found chosen
    have inside := found
    rw [standing, List.getElem?_append_left early] at inside
    have member := List.mem_of_getElem? inside
    refine ⟨rewritten pipeline.outlines pipeline.options.limits method, ?_, ?_⟩
    · rw [methods, List.getElem?_append_left (by simpa using early), List.getElem?_map, inside]
      simp [outcome, chosen]
    · exact replacing_rewritten (valid_of_mem valid (List.mem_of_getElem? found))
        (progress.replaceable method member chosen)
  · intro index method early found spared
    rw [standing, List.getElem?_append_left early] at found
    rw [methods, List.getElem?_append_left (by simpa using early), List.getElem?_map, found]
    simp [outcome, spared]
  · intro index late
    rw [methods, standing, List.getElem?_append_right (by simpa using late),
      List.getElem?_append_right late, List.length_map]

theorem fault?_rewriteAll_of_isMissing (ready : pipeline.phase = .built)
    (missing : fault.IsMissing) (failed : fault? ((rewrite selection).run pipeline) = some fault) :
    fault? ((rewriteAll selection pipeline.program.methods.zipIdx).run
      { pipeline with phase := .rewritten }) = some fault := by
  cases done : (rewrite selection).run pipeline with
  | ok item final =>
    rw [done] at failed
    cases failed
  | error other final =>
    rw [done] at failed
    cases failed
    rcases (run_rewrite_eq_error_iff ready).mp done with stopped | ⟨middle, _, _, checked⟩
    · rw [stopped]
      rfl
    · obtain ⟨outline, remaining, _, rfl, _⟩ := run_check_eq_error_iff.mp checked
      exact absurd missing (Fault.IsLeftover.not_isMissing ⟨outline.reference, remaining, rfl⟩)

/-- The rewriting step is atomic for each method. Wherever it stops, there is a place up to which
it has done all methods and from which on it has begun with none; at a missing site, the method at
that place is the one that misses it. -/
theorem rewriting_atomic (valid : pipeline.program.complaint? = none)
    (selection : List MethodIndex) :
    ∃ place, Reached pipeline selection place (left ((rewrite selection).run pipeline)).program ∧
      ∀ fault, fault.IsMissing → fault? ((rewrite selection).run pipeline) = some fault →
        ∃ method, pipeline.program.methods[place]? = some method ∧
          isChosen selection method = true ∧
          Misses pipeline.outlines pipeline.options.limits
            (left ((rewrite selection).run pipeline)).ledger method fault := by
  by_cases ready : pipeline.phase = .built
  · obtain ⟨done, rest, standing, progress⟩ := @exists_progress
      { pipeline with phase := .rewritten } selection [] pipeline.program.methods rfl
    rw [left_rewrite selection ready]
    refine ⟨done.length, progress.reached valid standing, fun fault missing failed => ?_⟩
    obtain ⟨method, others, rfl, chosen, misses⟩ :=
      progress.stops fault missing (fault?_rewriteAll_of_isMissing ready missing failed)
    exact ⟨method, by simp [standing], chosen, misses⟩
  · have refused := Step.run_perform_of_ne (.rewrite selection) ready
    rw [Step.perform] at refused
    rw [refused]
    refine ⟨0, ⟨rfl, by simp, by simp, fun _ _ => rfl⟩, ?_⟩
    rintro _ ⟨_, _, _, _, rfl⟩ ⟨⟩

/-- The step has changed the first method when it comes to a site of the second one that was not
recorded. -/
theorem exists_stop_between_methods :
    (left ((rewrite [0, 1]).run halfRecorded)).program ≠ halfRecorded.program ∧
      ∃ place method,
        Reached halfRecorded [0, 1] place (left ((rewrite [0, 1]).run halfRecorded)).program ∧
        halfRecorded.program.methods[place]? = some method ∧
        Misses halfRecorded.outlines halfRecorded.options.limits
          (left ((rewrite [0, 1]).run halfRecorded)).ledger method
          (.siteNotFound refinesSum.reference 0 2 3) := by
  have valid : halfRecorded.program.complaint? = none := by decide +kernel
  have failed : fault? ((rewrite [0, 1]).run halfRecorded) =
      some (.siteNotFound refinesSum.reference 0 2 3) := by decide +kernel
  obtain ⟨place, reached, stops⟩ := rewriting_atomic valid [0, 1]
  obtain ⟨method, found, _, misses⟩ := stops _ ⟨_, _, _, _, rfl⟩ failed
  exact ⟨by decide +kernel, place, method, reached, found, misses⟩

end Outlining.Pipeline
