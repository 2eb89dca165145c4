import Outlining.Proofs.Pipeline.Call
import Outlining.Proofs.Pipeline.Faultless

/-! A pipeline may be asked for anything, in any order and about any programs. Phases never go back,
every step is taken at most once, and a call that is refused changes nothing. A step only succeeds
after all steps before it did, unless one of these had begun and failed. -/
namespace Outlining

open Outlining.Bytecode Outlining.Pipeline

/-- A call with the pipeline before and after it, and with the fault if it failed. -/
structure Event where
  call : Call
  before : Pipeline
  fault : Option Fault
  after : Pipeline

namespace Event

/-- Whether the call was not begun. -/
def IsRefused (event : Event) : Prop :=
  ∃ fault, event.fault = some fault ∧ fault.isRefusal = true

/-- Whether the call had begun when it failed. -/
def FailsMidway (event : Event) : Prop :=
  ∃ fault, event.fault = some fault ∧ fault.isRefusal = false

/-- Whether the step from a phase was begun. -/
def Begins (event : Event) (phase : Phase) : Prop :=
  ¬ event.IsRefused ∧ ∃ step, event.call = .step step ∧ step.origin = phase

/-- Whether the step from a phase succeeded. -/
def Completes (event : Event) (phase : Phase) : Prop :=
  event.fault = none ∧ ∃ step, event.call = .step step ∧ step.origin = phase

theorem Completes.begins {event : Event} {phase : Phase} (completes : event.Completes phase) :
    event.Begins phase := by
  refine ⟨?_, completes.2⟩
  rintro ⟨fault, failed, _⟩
  rw [completes.1] at failed
  cases failed

theorem FailsMidway.not_isRefused {event : Event} (fails : event.FailsMidway) :
    ¬ event.IsRefused := by
  obtain ⟨fault, failed, midway⟩ := fails
  rintro ⟨_, refusing, refused⟩
  rw [failed] at refusing
  cases refusing
  rw [midway] at refused
  cases refused

theorem Begins.completes_or {event : Event} {phase : Phase} (begins : event.Begins phase) :
    event.Completes phase ∨ event.FailsMidway := by
  cases failed : event.fault with
  | none => exact .inl ⟨failed, begins.2⟩
  | some fault =>
    refine .inr ⟨fault, failed, ?_⟩
    rw [← Bool.not_eq_true]
    exact fun refused => begins.1 ⟨fault, failed, refused⟩

end Event

/-- What a pipeline answers to a call about a program. -/
def Pipeline.respond (pipeline : Pipeline) (program : Program) (call : Call) : Event :=
  let before := { pipeline with program := program }
  ⟨call, before, fault? (call.perform.run before), left (call.perform.run before)⟩

/-- The events of a history that starts with a pipeline, and the pipeline in the end. -/
inductive History (first : Pipeline) : List Event → Pipeline → Prop where
  | start : History first [] first
  | call {events : List Event} {pipeline : Pipeline} (earlier : History first events pipeline)
      (program : Program) (call : Call) :
      History first (events ++ [pipeline.respond program call])
        (pipeline.respond program call).after

/-- The answers to calls about programs, one after the other, and the pipeline in the end. -/
def Pipeline.play (pipeline : Pipeline) : List (Program × Call) → List Event × Pipeline
  | [] => ([], pipeline)
  | (program, call) :: rest =>
    let event := pipeline.respond program call
    let (events, final) := event.after.play rest
    (event :: events, final)

variable {first pipeline final : Pipeline} {events : List Event} {options : Options}
  {program : Program}

theorem History.play (history : History first events pipeline) (calls : List (Program × Call)) :
    History first (events ++ (pipeline.play calls).1) (pipeline.play calls).2 := by
  induction calls generalizing events pipeline with
  | nil => simpa [Pipeline.play] using history
  | cons entry calls inductionHypothesis =>
    obtain ⟨program, call⟩ := entry
    have next := inductionHypothesis (history.call program call)
    rwa [List.append_assoc] at next

/-- Every sequence of calls has a history. -/
theorem history_play (pipeline : Pipeline) (calls : List (Program × Call)) :
    History pipeline (pipeline.play calls).1 (pipeline.play calls).2 :=
  History.start.play calls

theorem map_call_play (pipeline : Pipeline) (calls : List (Program × Call)) :
    (pipeline.play calls).1.map (·.call) = calls.map (·.2) := by
  induction calls generalizing pipeline with
  | nil => rfl
  | cons entry calls inductionHypothesis =>
    exact congrArg (entry.2 :: ·) (inductionHypothesis (pipeline.respond entry.1 entry.2).after)

section Steps

/-- What the events of some steps say about the pipeline that they leave. -/
structure Progress (events : List Event) (pipeline : Pipeline) : Prop where
  passed : ∀ phase : Phase, phase.rank < pipeline.phase.rank →
    ∃ event ∈ events, event.Begins phase
  below : ∀ event ∈ events, ∀ phase : Phase, event.Begins phase →
    phase.rank < pipeline.phase.rank
  once : ∀ left ∈ events, ∀ right ∈ events, ∀ phase : Phase, left.Begins phase →
    right.Begins phase → left = right
  outlines : (∀ event ∈ events, ¬ event.Completes .recorded) → pipeline.outlines = []
  meets : ∀ event ∈ events, ∀ step fault, event.call = .step step → event.fault = some fault →
    fault.isRefusal = false → step.Meets fault

theorem progress_start (options : Options) (program : Program) :
    Progress [] (start options program) where
  passed := fun phase before => absurd before (Nat.not_lt_zero phase.rank)
  below := fun _ member => absurd member List.not_mem_nil
  once := fun _ member => absurd member List.not_mem_nil
  outlines := fun _ => rfl
  meets := fun _ member => absurd member List.not_mem_nil

/-- Each step is begun at most once if the last event begins none of those begun before. -/
theorem once_append {event : Event}
    (once : ∀ left ∈ events, ∀ right ∈ events, ∀ phase : Phase, left.Begins phase →
      right.Begins phase → left = right)
    (fresh : ∀ other ∈ events, ∀ phase : Phase, event.Begins phase → ¬ other.Begins phase) :
    ∀ left ∈ events ++ [event], ∀ right ∈ events ++ [event], ∀ phase : Phase,
      left.Begins phase → right.Begins phase → left = right := by
  intro left leftMember right rightMember phase leftBegins rightBegins
  rw [List.mem_append, List.mem_singleton] at leftMember rightMember
  rcases leftMember with leftOld | rfl
  · rcases rightMember with rightOld | rfl
    · exact once left leftOld right rightOld phase leftBegins rightBegins
    · exact absurd leftBegins (fresh left leftOld phase rightBegins)
  · rcases rightMember with rightOld | rfl
    · exact absurd rightBegins (fresh right rightOld phase leftBegins)
    · rfl

theorem Progress.append_refused (progress : Progress events pipeline) {event : Event}
    (refused : event.IsRefused) (phase : final.phase = pipeline.phase)
    (outlines : final.outlines = pipeline.outlines) : Progress (events ++ [event]) final := by
  have old {other : Event} {phase : Phase} (member : other ∈ events ++ [event])
      (begins : other.Begins phase) : other ∈ events := by
    rcases List.mem_append.mp member with earlier | here
    · exact earlier
    · obtain rfl := List.mem_singleton.mp here
      exact absurd refused begins.1
  constructor
  · intro before lower
    obtain ⟨other, member, begins⟩ := progress.passed before (phase ▸ lower)
    exact ⟨other, List.mem_append_left _ member, begins⟩
  · intro other member before begins
    rw [phase]
    exact progress.below other (old member begins) before begins
  · exact once_append progress.once fun _ _ _ begins => absurd refused begins.1
  · intro unbuilt
    rw [outlines]
    exact progress.outlines fun other member => unbuilt other (List.mem_append_left _ member)
  · refine List.forall_mem_append.mpr ⟨progress.meets, List.forall_mem_singleton.mpr ?_⟩
    intro step fault _ failed midway
    exact absurd refused (Event.FailsMidway.not_isRefused ⟨fault, failed, midway⟩)

theorem Progress.append_begun (progress : Progress events pipeline) {event : Event} {step : Step}
    (called : event.call = .step step) (ready : pipeline.phase = step.origin)
    (phase : final.phase = step.target)
    (outlines : event.Completes .recorded ∨ final.outlines = pipeline.outlines)
    (meets : ∀ fault, event.fault = some fault → step.Meets fault) :
    Progress (events ++ [event]) final := by
  -- a step that begins does not meet a refusal
  have begins : event.Begins step.origin := by
    refine ⟨?_, step, called, rfl⟩
    rintro ⟨fault, failed, refusal⟩
    rw [(meets fault failed).isRefusal_eq] at refusal
    cases refusal
  have here {phase : Phase} (other : event.Begins phase) : phase = step.origin := by
    obtain ⟨_, taken, same, rfl⟩ := other
    rw [called] at same
    cases same
    rfl
  have higher : final.phase.rank = pipeline.phase.rank + 1 := by
    rw [phase, ready, step.rank_target]
  constructor
  · intro before lower
    rcases Nat.lt_succ_iff_lt_or_eq.mp (higher ▸ lower) with old | last
    · obtain ⟨other, member, passed⟩ := progress.passed before old
      exact ⟨other, List.mem_append_left _ member, passed⟩
    · obtain rfl : before = step.origin := Phase.rank_injective (ready ▸ last)
      exact ⟨event, by simp, begins⟩
  · intro other member before begun
    rw [higher]
    rcases List.mem_append.mp member with old | last
    · exact Nat.lt_succ_of_lt (progress.below other old before begun)
    · obtain rfl := List.mem_singleton.mp last
      rw [here begun, ready]
      exact Nat.lt_succ_self _
  · refine once_append progress.once fun other member before begun again => ?_
    rw [here begun] at again
    have lower := progress.below other member step.origin again
    exact Nat.lt_irrefl _ (ready ▸ lower)
  · intro unbuilt
    rcases outlines with completes | same
    · exact absurd completes (unbuilt event (by simp))
    · rw [same]
      exact progress.outlines fun other member => unbuilt other (List.mem_append_left _ member)
  · refine List.forall_mem_append.mpr ⟨progress.meets, List.forall_mem_singleton.mpr ?_⟩
    intro taken fault same failed _
    rw [called] at same
    cases same
    exact meets fault failed

theorem Progress.respond (progress : Progress events pipeline) (program : Program) (step : Step) :
    Progress (events ++ [pipeline.respond program (.step step)])
      (pipeline.respond program (.step step)).after := by
  have refused {fault : Fault} (refusal : fault.isRefusal = true)
      (same : step.perform.run { pipeline with program := program } =
        .error fault { pipeline with program := program }) :
      Progress (events ++ [pipeline.respond program (.step step)])
        (pipeline.respond program (.step step)).after := by
    refine progress.append_refused ⟨fault, ?_, refusal⟩ ?_ ?_
    · simp only [Pipeline.respond, Call.perform, same, fault?]
    · simp only [Pipeline.respond, Call.perform, same, Pipeline.left]
    · simp only [Pipeline.respond, Call.perform, same, Pipeline.left]
  cases step.outcome { pipeline with program := program } with
  | outside differs same => exact refused rfl same
  | unused ready builds empty same => exact refused rfl same
  | begun ready phase options outlines meets =>
    exact progress.append_begun rfl ready phase
      (outlines.imp_left fun built => ⟨built.2, step, rfl, built.1⟩) meets

theorem progress_of_history (history : History (start options program) events pipeline)
    (steps : ∀ event ∈ events, ∃ step, event.call = .step step) : Progress events pipeline := by
  induction history with
  | start => exact progress_start options program
  | call earlier program call inductionHypothesis =>
    obtain ⟨step, same⟩ := steps _ (List.mem_append_right _ List.mem_cons_self)
    obtain rfl : call = .step step := same
    exact (inductionHypothesis fun event member =>
      steps event (List.mem_append_left _ member)).respond program step

theorem ready_of_succeeds {step : Step}
    (succeeds : (pipeline.respond program (.step step)).fault = none) :
    pipeline.phase = step.origin := by
  cases step.outcome { pipeline with program := program } with
  | begun ready => exact ready
  | outside _ same =>
    rw [Pipeline.respond, Call.perform, same] at succeeds
    cases succeeds
  | unused _ _ _ same =>
    rw [Pipeline.respond, Call.perform, same] at succeeds
    cases succeeds

/-- A step that has begun and failed is never taken again. -/
theorem Progress.not_completes (progress : Progress events pipeline) {event other : Event}
    {phase : Phase} (member : event ∈ events) (fails : event.FailsMidway)
    (begins : event.Begins phase) (listed : other ∈ events) : ¬ other.Completes phase := by
  intro completes
  have same := progress.once event member other listed phase begins completes.begins
  obtain ⟨fault, failed, _⟩ := fails
  rw [same, completes.1] at failed
  cases failed

/-- A step that fails once it has begun is the last one, or the building of a holder that met a
template without an outline, unless an assertion was broken. -/
theorem Progress.cases_of_failsMidway (progress : Progress events pipeline) {event : Event}
    (member : event ∈ events) {earlier : Step} (called : event.call = .step earlier)
    (fails : event.FailsMidway) :
    (∃ assertion, event.fault = some (.assertion assertion)) ∨ earlier.origin = .built ∨
      (∃ template flaw, event.fault = some (.signatureMismatch template flaw)) ∧
        earlier.origin = .recorded := by
  obtain ⟨fault, failed, refusal⟩ := fails
  have meets := progress.meets event member earlier fault called failed refusal
  rw [failed]
  cases meets with
  | survey | record | build | rewrite => exact .inl ⟨_, rfl⟩
  | missing | leftover => exact .inr (.inl rfl)
  | mismatch => exact .inr (.inr ⟨⟨_, _, rfl⟩, rfl⟩)

/-- Where steps are taken in any order and about any programs, a step that succeeds comes after the
success of all steps before it, exactly if no call failed after it had begun. Unless an assertion
was broken, that call was the building of the holder, which met a template without an outline, the
step is the rewriting, and it changes nothing but the phase. -/
theorem succeeds_in_order_iff
    (history : History (start options program) events pipeline)
    (steps : ∀ event ∈ events, ∃ step, event.call = .step step) (current : Program) {step : Step}
    (succeeds : (pipeline.respond current (.step step)).fault = none) :
    ((∀ phase : Phase, phase.rank < step.origin.rank →
        ∃ event ∈ events, event.Completes phase) ↔ ∀ event ∈ events, ¬ event.FailsMidway) ∧
    ∀ event ∈ events, event.FailsMidway →
      (∃ assertion, event.fault = some (.assertion assertion)) ∨
      (∃ template flaw, event.fault = some (.signatureMismatch template flaw)) ∧
        (∃ selection, step = .rewrite selection) ∧
        (pipeline.respond current (.step step)).after =
          { pipeline with program := current, phase := .rewritten } := by
  have progress := progress_of_history history steps
  have ready := ready_of_succeeds succeeds
  have begun {event : Event} (member : event ∈ events) (fails : event.FailsMidway) :
      ∃ earlier, event.call = .step earlier ∧ event.Begins earlier.origin ∧
        earlier.origin.rank < step.origin.rank := by
    obtain ⟨earlier, called⟩ := steps event member
    have begins : event.Begins earlier.origin := ⟨fails.not_isRefused, earlier, called, rfl⟩
    exact ⟨earlier, called, begins, ready ▸ progress.below event member earlier.origin begins⟩
  constructor
  · constructor
    · intro complete event member fails
      obtain ⟨earlier, _, begins, lower⟩ := begun member fails
      obtain ⟨other, listed, completes⟩ := complete earlier.origin lower
      exact progress.not_completes member fails begins listed completes
    · intro whole phase lower
      obtain ⟨event, member, begins⟩ := progress.passed phase (ready ▸ lower)
      exact ⟨event, member, begins.completes_or.resolve_right (whole event member)⟩
  · intro event member fails
    obtain ⟨earlier, called, begins, lower⟩ := begun member fails
    refine (progress.cases_of_failsMidway member called fails).imp_right fun mismatch => ?_
    rcases mismatch with last | ⟨mismatch, building⟩
    · rw [last] at lower
      exact absurd lower (Nat.not_lt.mpr step.rank_origin_le)
    · rw [building] at begins lower
      -- the step that makes outlines is the one that failed, so there are none to replace
      have unbuilt := progress.outlines fun other listed =>
        progress.not_completes member fails begins listed
      obtain ⟨selection, rfl⟩ := step.eq_rewrite_of_lt lower
      exact ⟨mismatch, ⟨selection, rfl⟩, left_rewrite_of_no_outlines selection ready unbuilt⟩

/-- A method that passes its argument as a parameter of type `V`, for which no outline can be
made. -/
def passesVoid : Method where
  index := 0
  reference := ⟨⟨"LA;"⟩, "m", ⟨.void, [.int]⟩⟩
  types := [.number .int]
  blocks := [⟨0, [⟨.argument 0, [], some 0, none⟩,
    ⟨.call .static ⟨⟨"LA;"⟩, "f", ⟨.void, [.void]⟩⟩ true, [0], none, none⟩,
    ⟨.ret, [], none, none⟩], [], []⟩]
  synthetic := false

/-- A pipeline that was asked for the steps up to the building of the holder, and what it
answered. -/
def heldUp : List Event × Pipeline :=
  (start eager ⟨[passesVoid]⟩).play
    ([.survey, .select, .record [0], .build .object 1].map fun step => (⟨[passesVoid]⟩, .step step))

/-- The rewriting may succeed after the building of the holder has failed. -/
theorem succeeds_out_of_order :
    (heldUp.2.respond ⟨[passesVoid]⟩ (.step (.rewrite [0]))).fault = none ∧
    ¬ ∀ phase : Phase, phase.rank < Phase.built.rank →
      ∃ event ∈ heldUp.1, event.Completes phase := by
  have succeeds : (heldUp.2.respond ⟨[passesVoid]⟩ (.step (.rewrite [0]))).fault = none := by
    decide +kernel
  have steps : ∀ event ∈ heldUp.1, ∃ step, event.call = .step step := by
    intro event member
    have called : event.call ∈ heldUp.1.map Event.call := List.mem_map_of_mem member
    rw [heldUp, map_call_play, List.map_map] at called
    obtain ⟨step, _, same⟩ := List.mem_map.mp called
    exact ⟨step, same.symm⟩
  have fails : ∃ event ∈ heldUp.1, event.fault.any (!·.isRefusal) = true := by
    decide +kernel
  refine ⟨succeeds, fun complete => ?_⟩
  obtain ⟨event, member, failed⟩ := fails
  have ordered := (succeeds_in_order_iff (history_play _ _) steps ⟨[passesVoid]⟩ succeeds).1.mp
    complete event member
  obtain ⟨fault, failed, midway⟩ := (Option.any_eq_true _ _).mp failed
  exact ordered ⟨fault, failed, by simpa using midway⟩

end Steps

end Outlining
