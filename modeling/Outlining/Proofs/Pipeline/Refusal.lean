import Outlining.Proofs.Pipeline.Rewrite

namespace Outlining

open Outlining.Bytecode Outlining.Window

/-- Whether a site was missing. -/
def Fault.IsMissing (fault : Fault) : Prop :=
  ∃ method block start stop, fault = .siteNotFound method block start stop

/-- Whether sites were left over. -/
def Fault.IsLeftover (fault : Fault) : Prop :=
  ∃ outline remaining, fault = .sitesRemaining outline remaining

theorem Fault.IsLeftover.not_isMissing {fault : Fault} (left : fault.IsLeftover) :
    ¬ fault.IsMissing := by
  rintro ⟨_, _, _, _, rfl⟩
  obtain ⟨_, _, same⟩ := left
  cases same

namespace Pipeline

variable {pipeline final : Pipeline} {method : Method} {selection : List MethodIndex}
  {fault : Fault}

theorem run_bind_eq_error_iff {α β : Type} {first : Pass α} {next : α → Pass β} :
    (first >>= next).run pipeline = .error fault final ↔
      first.run pipeline = .error fault final ∨ ∃ item middle,
        first.run pipeline = .ok item middle ∧ (next item).run middle = .error fault final := by
  rw [EStateM.run_bind]
  cases first.run pipeline with
  | ok item middle => simp
  | error stopped middle => simp

/-- Where all windows may be replaced, only a missing site stops the edits. -/
theorem isMissing_of_edits {candidates : List Candidate}
    (replaceable : ∀ hit ∈ hits pipeline.outlines candidates, Replaceable method hit)
    (failed : (edits method (candidates.map .ok)).run pipeline = .error fault final) :
    fault.IsMissing := by
  induction candidates generalizing pipeline final with
  | nil => cases failed
  | cons candidate candidates inductionHypothesis =>
    rw [List.map_cons] at failed
    cases known : outlineFor? pipeline.outlines candidate.template with
    | none =>
      rw [hits_cons_of_none known] at replaceable
      rw [run_edits_cons_of_none known] at failed
      exact inductionHypothesis replaceable failed
    | some outline =>
      rw [hits_cons_of_some known, List.forall_mem_cons] at replaceable
      cases struck : pipeline.ledger.strike? outline.index (siteOf method.index candidate) with
      | none =>
        rw [run_edits_cons_of_missing known struck] at failed
        cases failed
        exact ⟨_, _, _, _, rfl⟩
      | some next =>
        rw [run_edits_cons_of_struck known struck replaceable.1, run_bind_eq_error_iff] at failed
        rcases failed with failed | ⟨_, _, _, added⟩
        · refine inductionHypothesis ?_ failed
          exact replaceable.2
        · cases added

theorem isMissing_of_rewriteMethod (sound : Sound pipeline.options.limits method)
    (replaceable : ∀ hit ∈ hits pipeline.outlines (found pipeline.options.limits method),
      Replaceable method hit)
    (failed : (rewriteMethod method).run pipeline = .error fault final) : fault.IsMissing := by
  unfold rewriteMethod at failed
  rw [run_bind_of_ok _ (EStateM.run_get _), sound.scan_eq, run_bind_eq_error_iff] at failed
  rcases failed with failed | ⟨list, _, _, applied⟩
  · exact isMissing_of_edits replaceable failed
  · cases list with
    | nil => cases applied
    | cons edit list => cases applied

theorem isMissing_of_rewriteAll {items : List (Method × Nat)}
    (sound : ∀ item ∈ items, item.1.synthetic = false → Sound pipeline.options.limits item.1)
    (replaceable : ∀ item ∈ items, ∀ hit ∈ hits pipeline.outlines
      (found pipeline.options.limits item.1), Replaceable item.1 hit)
    (failed : (rewriteAll selection items).run pipeline = .error fault final) :
    fault.IsMissing := by
  induction items generalizing pipeline with
  | nil => cases failed
  | cons item items inductionHypothesis =>
    obtain ⟨method, place⟩ := item
    rw [List.forall_mem_cons] at sound replaceable
    cases picked : isChosen selection method with
    | false =>
      rw [rewriteAll_cons_of_not_chosen place items picked] at failed
      exact inductionHypothesis sound.2 replaceable.2 failed
    | true =>
      have plain := synthetic_of_isChosen picked
      rw [rewriteAll_cons_of_chosen place items picked, run_bind_eq_error_iff] at failed
      rcases failed with failed | ⟨result, middle, one, failed⟩
      · exact isMissing_of_rewriteMethod (sound.1 plain) replaceable.1 failed
      · obtain ⟨ledger, _, _, _, rfl⟩ := (run_rewriteMethod_eq_ok_iff (sound.1 plain)).mp one
        rw [run_bind_of_ok _ (run_replaceMethod ..)] at failed
        refine inductionHypothesis ?_ ?_ failed
        · exact sound.2
        · exact replaceable.2

theorem run_check_eq_error_iff : check.run pipeline = .error fault final ↔
    ∃ outline remaining, pipeline.leftover? = some (outline, remaining) ∧
      fault = .sitesRemaining outline.reference remaining ∧ final = pipeline := by
  unfold check
  rw [run_bind_of_ok _ (EStateM.run_get _)]
  cases pipeline.leftover? with
  | none => simp
  | some left =>
    constructor
    · intro failed
      cases failed
      exact ⟨_, _, rfl, rfl, rfl⟩
    · rintro ⟨_, _, same, rfl, rfl⟩
      cases same
      rfl

/-- The rewriting step fails where a method cannot be rewritten, or in the check in the end. -/
theorem run_rewrite_eq_error_iff (ready : pipeline.phase = .built) :
    (rewrite selection).run pipeline = .error fault final ↔
      (rewriteAll selection pipeline.program.methods.zipIdx).run
          { pipeline with phase := .rewritten } = .error fault final ∨
      ∃ middle, (rewriteAll selection pipeline.program.methods.zipIdx).run
          { pipeline with phase := .rewritten } = .ok ⟨⟩ middle ∧
        pipeline.options.verify = true ∧ check.run middle = .error fault final := by
  unfold rewrite
  rw [run_bind_of_ok _ (run_advance .rewritten ready), run_bind_of_ok _ (EStateM.run_get _),
    run_bind_eq_error_iff]
  apply or_congr Iff.rfl
  cases pipeline.options.verify with
  | false =>
    constructor
    · rintro ⟨_, _, _, failed⟩
      cases failed
    · rintro ⟨_, _, off, _⟩
      cases off
  | true =>
    constructor
    · rintro ⟨_, middle, looped, failed⟩
      exact ⟨middle, looped, rfl, failed⟩
    · rintro ⟨middle, looped, _, failed⟩
      exact ⟨_, middle, looped, failed⟩

end Pipeline

end Outlining
