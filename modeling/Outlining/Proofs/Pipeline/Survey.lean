import Outlining.Proofs.Pipeline.Run

namespace Outlining.Pipeline

open Outlining.Bytecode Outlining.Window

variable {options : Options} {program : Program} {pipeline final : Pipeline} {method : Method}
  {returned : Option Holder}

/-- A loop that succeeds has taken every step from a state in which something holds that the steps
keep. -/
theorem of_run_forM {α : Type} {items : List α} {action : α → Pass PUnit}
    (holds : Pipeline → Prop) (start : holds pipeline)
    (keeps : ∀ item ∈ items, ∀ before after, holds before →
      (action item).run before = .ok ⟨⟩ after → holds after)
    (done : (items.forM action).run pipeline = .ok ⟨⟩ final) :
    (∀ item ∈ items, ∃ before after, holds before ∧ (action item).run before = .ok ⟨⟩ after) ∧
      holds final := by
  induction items generalizing pipeline with
  | nil =>
    cases done
    exact ⟨by simp, start⟩
  | cons item items inductionHypothesis =>
    rw [List.forM, run_bind_eq_ok_iff] at done
    obtain ⟨_, middle, first, rest⟩ := done
    have kept := keeps item List.mem_cons_self pipeline middle start first
    obtain ⟨all, last⟩ := inductionHypothesis kept
      (fun other member => keeps other (List.mem_cons_of_mem _ member)) rest
    refine ⟨?_, last⟩
    rintro other member
    rcases List.mem_cons.mp member with rfl | member
    · exact ⟨pipeline, middle, start, first⟩
    · exact all other member

/-- An action that succeeds on every window of a method has met no broken assertion. -/
theorem of_run_forEachCandidate {action : Candidate → Pass Unit} (holds : Pipeline → Prop)
    (start : holds pipeline)
    (keeps : ∀ candidate before after, holds before →
      (action candidate).run before = .ok ⟨⟩ after → holds after)
    (done : (forEachCandidate method action).run pipeline = .ok ⟨⟩ final) :
    Sound pipeline.options.limits method ∧ holds final := by
  unfold forEachCandidate at done
  rw [run_bind_of_ok _ (EStateM.run_get _)] at done
  obtain ⟨all, last⟩ := of_run_forM holds start (fun result _ before after held acted => by
    cases result with
    | error assertion => cases acted
    | ok candidate => exact keeps candidate before after held acted) done
  refine ⟨fun result member => ?_, last⟩
  obtain ⟨before, after, _, acted⟩ := all result member
  cases result with
  | error assertion => cases acted
  | ok candidate => exact ⟨candidate, rfl⟩

theorem of_run_advance {expected next : Phase}
    (done : (advance expected next).run pipeline = .ok ⟨⟩ final) :
    pipeline.phase = expected ∧ final = { pipeline with phase := next } := by
  unfold advance at done
  rw [run_bind_of_ok _ (EStateM.run_get _)] at done
  by_cases ready : pipeline.phase = expected
  · rw [if_neg (not_not.mpr ready)] at done
    cases done
    exact ⟨ready, rfl⟩
  · rw [if_pos ready] at done
    cases done

/-- All of a pipeline but the census and what the first pass counts. -/
def apart (pipeline : Pipeline) :
    (Options × Program × Phase × Ledger × List Outline) × Nat × Nat :=
  (pipeline.frame, pipeline.statistics.sites, pipeline.statistics.sitesRewritten)

theorem of_run_survey (done : survey.run pipeline = .ok ⟨⟩ final) :
    (∀ method ∈ pipeline.program.methods, method.synthetic = false →
      Sound pipeline.options.limits method) ∧
    final.apart = { pipeline with phase := .surveyed }.apart := by
  unfold survey at done
  rw [run_bind_eq_ok_iff] at done
  obtain ⟨_, middle, advanced, done⟩ := done
  obtain ⟨_, rfl⟩ := of_run_advance advanced
  rw [run_bind_of_ok _ (EStateM.run_get _), run_bind_eq_ok_iff] at done
  obtain ⟨_, surveyed, looped, counted⟩ := done
  have each (method : Method) (before after : Pipeline)
      (held : before.apart = { pipeline with phase := .surveyed }.apart)
      (acted : (do
        count fun statistics => { statistics with methodsScanned := statistics.methodsScanned + 1 }
        forEachCandidate method (surveyCandidate method.index) : Pass Unit).run before =
          .ok ⟨⟩ after) :
      Sound pipeline.options.limits method ∧
        after.apart = { pipeline with phase := .surveyed }.apart := by
    have options : before.options = pipeline.options := congrArg (·.1.1) held
    rw [run_bind_of_ok _ (run_count _ before)] at acted
    obtain ⟨sound, kept⟩ := of_run_forEachCandidate
      (·.apart = { pipeline with phase := .surveyed }.apart) held (fun candidate _ _ held acted => by
        rw [run_surveyCandidate] at acted
        cases acted
        exact held) acted
    exact ⟨options ▸ sound, kept⟩
  obtain ⟨all, last⟩ := of_run_forM (·.apart = { pipeline with phase := .surveyed }.apart) rfl
    (fun method _ before after held acted => (each method before after held acted).2) looped
  constructor
  · intro method member plain
    obtain ⟨before, after, held, acted⟩ := all method (by simp [member, plain])
    exact (each method before after held acted).1
  · cases counted
    exact last

theorem of_run_select {selection : List MethodIndex}
    (done : select.run pipeline = .ok selection final) :
    final.apart = { pipeline with phase := .selected }.apart := by
  unfold select at done
  rw [run_bind_eq_ok_iff] at done
  obtain ⟨_, middle, advanced, done⟩ := done
  obtain ⟨_, rfl⟩ := of_run_advance advanced
  cases done
  rfl

/-- A run that returns a result has met no broken assertion. -/
theorem allSound_of_run (enabled : options.enabled = true)
    (done : run.run (start options program) = .ok returned final) : AllSound options program := by
  unfold run at done
  rw [run_bind_of_ok _ (EStateM.run_get _), if_neg (by simp [start, enabled]),
    run_bind_eq_ok_iff] at done
  obtain ⟨_, _, surveyed, _⟩ := done
  exact (of_run_survey surveyed).1

end Outlining.Pipeline
