import Mathlib.Data.List.Forall2
import Outlining.Proofs.Pipeline.History

/-! Whatever a call does is the work of steps, one after the other: a step that is asked for is
either refused or taken, and a run takes some of the steps in their order. Each of them leads to the
next phase, so that over a whole history no step is taken twice. -/
namespace Outlining

open Outlining.Bytecode Outlining.Pipeline

variable {pipeline first middle final : Pipeline} {steps more : List Step} {events : List Event}

/-- Whether a step is not refused. -/
def Step.Begins (step : Step) (pipeline : Pipeline) : Prop :=
  ∀ fault, fault? (step.perform.run pipeline) = some fault → fault.isRefusal = false

/-- Steps that are taken one after the other, whether they succeed or fail. -/
inductive Takes : Pipeline → List Step → Pipeline → Prop where
  | nothing {pipeline : Pipeline} : Takes pipeline [] pipeline
  | step {pipeline final : Pipeline} {steps : List Step} (step : Step)
      (begins : step.Begins pipeline)
      (rest : Takes (left (step.perform.run pipeline)) steps final) :
      Takes pipeline (step :: steps) final

theorem Takes.append (taken : Takes pipeline steps middle) (rest : Takes middle more final) :
    Takes pipeline (steps ++ more) final := by
  induction taken with
  | nothing => exact rest
  | step step begins _ inductionHypothesis => exact .step step begins (inductionHypothesis rest)

theorem Step.Begins.phases {step : Step} (begins : step.Begins pipeline) :
    pipeline.phase = step.origin ∧ (left (step.perform.run pipeline)).phase = step.target := by
  cases step.outcome pipeline with
  | begun ready phase => exact ⟨ready, phase⟩
  | outside _ refused =>
    rw [Step.Begins, refused] at begins
    cases begins _ rfl
  | unused _ _ _ refused =>
    rw [Step.Begins, refused] at begins
    cases begins _ rfl

theorem Takes.ranks (taken : Takes pipeline steps final) :
    steps.map (·.origin.rank) = List.range' pipeline.phase.rank steps.length ∧
      final.phase.rank = pipeline.phase.rank + steps.length := by
  induction taken with
  | nothing => exact ⟨rfl, rfl⟩
  | step step begins _ inductionHypothesis =>
    obtain ⟨ready, next⟩ := begins.phases
    obtain ⟨origins, last⟩ := inductionHypothesis
    rw [next, step.rank_target, ← ready] at origins last
    rw [List.map_cons, List.length_cons, List.range'_succ, origins, last, ready]
    exact ⟨rfl, by omega⟩

/-- Whether all that a pass does is to take steps. -/
def Works {α : Type} (pass : Pass α) : Prop :=
  ∀ pipeline, ∃ steps, Takes pipeline steps (left (pass.run pipeline))

/-- Whether all that a pass does is to take steps, and to append methods in the end. -/
def Adds {α : Type} (pass : Pass α) : Prop :=
  ∀ pipeline, ∃ steps reached, ∃ methods : List Method, Takes pipeline steps reached ∧
    left (pass.run pipeline) =
      { reached with program := methods.foldl Program.append reached.program }

theorem works_perform (step : Step) : Works step.perform := by
  intro pipeline
  cases step.outcome pipeline with
  | outside _ refused =>
    rw [refused]
    exact ⟨[], .nothing⟩
  | unused _ _ _ refused =>
    rw [refused]
    exact ⟨[], .nothing⟩
  | begun _ _ _ _ meets =>
    exact ⟨[step], .step step (fun fault failed => (meets fault failed).isRefusal_eq) .nothing⟩

section Run

variable {α β : Type} {pass : Pass α}

theorem Works.adds (works : Works pass) : Adds pass := by
  intro pipeline
  obtain ⟨steps, taken⟩ := works pipeline
  exact ⟨steps, _, [], taken, rfl⟩

theorem works_of_left (same : ∀ pipeline, left (pass.run pipeline) = pipeline) : Works pass := by
  intro pipeline
  rw [same]
  exact ⟨[], .nothing⟩

/-- What takes steps may be followed by what takes steps and appends methods. -/
theorem Works.bind {next : α → Pass β} (works : Works pass) (adds : ∀ item, Adds (next item)) :
    Adds (pass >>= next) := by
  intro pipeline
  obtain ⟨steps, taken⟩ := works pipeline
  rw [EStateM.run_bind]
  cases done : pass.run pipeline with
  | ok item middle =>
    rw [done] at taken
    obtain ⟨more, reached, methods, rest, same⟩ := adds item middle
    exact ⟨steps ++ more, reached, methods, taken.append rest, same⟩
  | error fault middle =>
    rw [done] at taken
    exact ⟨steps, middle, [], taken, rfl⟩

theorem works_of_perform (step : Step)
    (same : ∀ pipeline, left (step.perform.run pipeline) = left (pass.run pipeline)) :
    Works pass := by
  intro pipeline
  rw [← same]
  exact works_perform step pipeline

/-- A run takes steps, and appends methods in the end. -/
theorem adds_run : Adds Pipeline.run := by
  have stops (returned : Option Holder) : Adds (pure returned : Pass (Option Holder)) :=
    (works_of_left fun _ => rfl).adds
  unfold Pipeline.run
  refine (works_of_left fun _ => rfl).bind fun created => ?_
  split
  · exact stops none
  refine (works_perform .survey).bind fun _ => ?_
  refine (works_of_perform .select fun pipeline => left_bind_pure ..).bind fun selection => ?_
  refine (works_perform (.record selection)).bind fun _ => ?_
  refine (works_of_left fun _ => rfl).bind fun recorded => ?_
  split
  · exact stops none
  refine (works_of_perform (.build recorded.options.holderType recorded.program.methods.length)
    fun pipeline => left_bind_pure ..).bind fun holder => ?_
  split
  · exact stops none
  refine (works_perform (.rewrite selection)).bind fun _ pipeline => ?_
  exact ⟨[], pipeline, holder.methods, .nothing, rfl⟩

theorem isRefusal_of_run {fault : Fault} (created : pipeline.phase = .created)
    (failed : fault? (Pipeline.run.run pipeline) = some fault) : fault.isRefusal = false := by
  have phase {before after : Pipeline} {next : Phase}
      (same : after.standing = { before with phase := next }.standing) : after.phase = next :=
    congrArg (·.2.2.1) same
  -- each step leaves the phase from which the next one starts
  unfold Pipeline.run at failed
  rw [run_bind_of_ok _ (EStateM.run_get _)] at failed
  split at failed
  · cases failed
  rcases fault?_bind_cases failed with here | ⟨_, surveyed, surveying, failed⟩
  · exact (meets_of_survey created here).isRefusal_eq
  have ready : surveyed.phase = .surveyed := phase (surveying ▸ standing_left_survey created)
  rcases fault?_bind_cases failed with here | ⟨selection, selected, selecting, failed⟩
  · rw [fault?_select ready] at here
    cases here
  have ready : selected.phase = .selected := phase (selecting ▸ standing_left_select ready)
  rcases fault?_bind_cases failed with here | ⟨_, recorded, recording, failed⟩
  · exact (meets_of_record ready here).isRefusal_eq
  have ready : recorded.phase = .recorded := phase (recording ▸ standing_left_record selection ready)
  rw [run_bind_of_ok _ (EStateM.run_get _)] at failed
  split at failed
  · cases failed
  rename_i used
  rcases fault?_bind_cases failed with here | ⟨holder, built, building, failed⟩
  · exact (meets_of_build ready (Bool.eq_false_iff.mpr used) here).isRefusal_eq
  obtain ⟨_, _, _, _, rfl⟩ := of_run_build building
  split at failed
  · cases failed
  rcases fault?_bind_cases failed with here | ⟨_, _, _, failed⟩
  · exact (meets_of_rewrite rfl here).isRefusal_eq
  · cases failed

theorem left_run_of_refused {fault : Fault}
    (failed : fault? (Pipeline.run.run pipeline) = some fault) (refusal : fault.isRefusal = true) :
    left (Pipeline.run.run pipeline) = pipeline := by
  by_cases created : pipeline.phase = .created
  · rw [isRefusal_of_run created failed] at refusal
    cases refusal
  · have refused : survey.run pipeline = _ := Step.run_perform_of_ne .survey created
    unfold Pipeline.run
    rw [left_get_bind]
    split
    · rfl
    · rw [EStateM.run_bind, refused, Pipeline.left]

end Run

section Events

variable {event : Event}

/-- Whether what a call has changed is the work of the given steps, and methods appended in the
end. -/
def Event.Does (event : Event) (steps : List Step) : Prop :=
  ∃ reached, ∃ methods : List Method, Takes event.before steps reached ∧
    event.after = { reached with program := methods.foldl Program.append reached.program }

theorem Event.Does.ranks (does : event.Does steps) :
    steps.map (·.origin.rank) = List.range' event.before.phase.rank steps.length ∧
      event.after.phase.rank = event.before.phase.rank + steps.length := by
  obtain ⟨reached, methods, taken, same⟩ := does
  rw [same]
  exact taken.ranks

theorem exists_does (pipeline : Pipeline) (program : Program) (call : Call) :
    ∃ steps, (pipeline.respond program call).Does steps := by
  cases call with
  | step step =>
    obtain ⟨steps, taken⟩ := works_perform step { pipeline with program := program }
    exact ⟨steps, _, [], taken, rfl⟩
  | run =>
    obtain ⟨steps, reached, methods, taken, same⟩ := adds_run { pipeline with program := program }
    exact ⟨steps, reached, methods, taken, (left_bind_pure ..).trans same⟩

theorem after_of_isRefused {program : Program} {call : Call}
    (refused : (pipeline.respond program call).IsRefused) :
    (pipeline.respond program call).after = (pipeline.respond program call).before := by
  obtain ⟨fault, failed, refusal⟩ := refused
  cases call with
  | step step =>
    cases step.outcome { pipeline with program := program } with
    | outside _ same => simp only [Pipeline.respond, Call.perform, same, Pipeline.left]
    | unused _ _ _ same => simp only [Pipeline.respond, Call.perform, same, Pipeline.left]
    | begun _ _ _ _ meets =>
      rw [(meets fault failed).isRefusal_eq] at refusal
      cases refusal
  | run =>
    have failed : fault? (Pipeline.run.run { pipeline with program := program }) = some fault :=
      (fault?_bind_pure ..).symm.trans failed
    exact (left_bind_pure ..).trans (left_run_of_refused failed refusal)

/-- A step is told that it is not its turn, exactly if it is not. -/
theorem passOrder_iff {program : Program} {step : Step} :
    (∃ expected actual, (pipeline.respond program (.step step)).fault =
      some (.passOrder expected actual)) ↔ pipeline.phase ≠ step.origin := by
  cases step.outcome { pipeline with program := program } with
  | outside differs same =>
    refine iff_of_true ⟨step.origin, pipeline.phase, ?_⟩ differs
    simp only [Pipeline.respond, Call.perform, same, fault?]
  | unused ready _ _ same =>
    refine iff_of_false ?_ (not_not.mpr ready)
    simp [Pipeline.respond, Call.perform, same, fault?]
  | begun ready _ _ _ meets =>
    refine iff_of_false ?_ (not_not.mpr ready)
    rintro ⟨expected, actual, failed⟩
    cases meets _ failed

end Events

/-- What a history has done: the works of its calls, one after the other, start from the phases in
their order. -/
structure Worked (first : Pipeline) (events : List Event) (works : List (List Step))
    (final : Pipeline) : Prop where
  does : List.Forall₂ Event.Does events works
  ranks : works.flatten.map (·.origin.rank) =
    List.range' first.phase.rank works.flatten.length
  last : final.phase.rank = first.phase.rank + works.flatten.length
  ascends : events.Pairwise fun earlier later =>
    earlier.after.phase.rank ≤ later.before.phase.rank
  reached : ∀ event ∈ events, event.after.phase.rank ≤ final.phase.rank

theorem exists_works (history : History first events final) :
    ∃ works, Worked first events works final := by
  induction history with
  | start => exact ⟨[], .nil, rfl, rfl, .nil, fun _ member => absurd member List.not_mem_nil⟩
  | @call events pipeline earlier program call inductionHypothesis =>
    obtain ⟨works, worked⟩ := inductionHypothesis
    obtain ⟨steps, does⟩ := exists_does pipeline program call
    obtain ⟨origins, last⟩ := does.ranks
    have here : (pipeline.respond program call).before.phase.rank =
        first.phase.rank + works.flatten.length := worked.last
    refine ⟨works ++ [steps], ?_, ?_, ?_, ?_, ?_⟩
    · exact List.rel_append worked.does (.cons does .nil)
    · rw [List.flatten_append, List.flatten_singleton, List.map_append, worked.ranks, origins, here,
        List.range'_append_1, List.length_append]
    · rw [List.flatten_append, List.flatten_singleton, List.length_append, last, here, Nat.add_assoc]
    · refine List.pairwise_append.mpr ⟨worked.ascends, List.pairwise_singleton .., ?_⟩
      intro event member other listed
      obtain rfl := List.mem_singleton.mp listed
      exact worked.reached event member
    · intro event member
      rcases List.mem_append.mp member with old | listed
      · refine Nat.le_trans (worked.reached event old) ?_
        rw [last]
        exact Nat.le_add_right _ _
      · obtain rfl := List.mem_singleton.mp listed
        exact Nat.le_refl _

/-- What every history keeps to. -/
structure Harmless (events : List Event) : Prop where
  /-- The phase never decreases, neither in a call nor from one call to a later one. -/
  climbs : (∀ event ∈ events, event.before.phase.rank ≤ event.after.phase.rank) ∧
    events.Pairwise fun earlier later => earlier.after.phase.rank ≤ later.before.phase.rank
  /-- All that the calls do is the work of steps, and no step is taken twice. -/
  once : ∃ works, List.Forall₂ Event.Does events works ∧
    (works.flatten.map (·.origin)).Nodup
  /-- A call that is refused changes nothing. -/
  unchanged : ∀ event ∈ events, event.IsRefused → event.after = event.before
  /-- A step is told that it is not its turn exactly if it is not. -/
  refused : ∀ event ∈ events, ∀ step, event.call = .step step →
    ((∃ expected actual, event.fault = some (.passOrder expected actual)) ↔
      event.before.phase ≠ step.origin)

theorem mem_history {event : Event} (history : History first events final)
    (member : event ∈ events) :
    ∃ pipeline program call, event = Pipeline.respond pipeline program call := by
  induction history with
  | start => cases member
  | call earlier program call inductionHypothesis =>
    rcases List.mem_append.mp member with old | last
    · exact inductionHypothesis old
    · exact ⟨_, program, call, List.mem_singleton.mp last⟩

/-- Calls out of order are harmless, whatever a pipeline is asked for and about which programs:
the phase never decreases, the work of each step is done at most once, a call that is refused
leaves everything as it was, and a step is refused for its order exactly if the phase is not the
one from which it starts. -/
theorem calls_out_of_order_harmless {first final : Pipeline} {events : List Event}
    (history : History first events final) : Harmless events := by
  obtain ⟨works, worked⟩ := exists_works history
  refine ⟨⟨?_, worked.ascends⟩, ⟨works, worked.does, ?_⟩, ?_, ?_⟩
  · intro event member
    obtain ⟨pipeline, program, call, rfl⟩ := mem_history history member
    obtain ⟨steps, does⟩ := exists_does pipeline program call
    rw [does.ranks.2]
    exact Nat.le_add_right _ _
  · refine List.Nodup.of_map Phase.rank ?_
    rw [List.map_map]
    exact worked.ranks ▸ List.nodup_range'
  · intro event member refused
    obtain ⟨pipeline, program, call, rfl⟩ := mem_history history member
    exact after_of_isRefused refused
  · intro event member step called
    obtain ⟨pipeline, program, call, rfl⟩ := mem_history history member
    obtain rfl : call = .step step := called
    exact passOrder_iff

/-- Steps out of order, the building of a holder without sites, and a run that comes too late. -/
def disordered : List Event × Pipeline :=
  (start eager ⟨[refinesSum]⟩).play ([.step (.rewrite [0]), .step .survey, .step .survey,
    .step .select, .step (.record []), .step (.build .object 1), .run].map fun call =>
      (⟨[refinesSum]⟩, call))

theorem disordered_harmless :
    disordered.1.map (·.fault) = [some (.passOrder .built .created), none,
      some (.passOrder .created .surveyed), none, none, some .noSitesRecorded,
      some (.passOrder .created .recorded)] ∧ Harmless disordered.1 :=
  ⟨by decide +kernel, calls_out_of_order_harmless (history_play _ _)⟩

end Outlining
