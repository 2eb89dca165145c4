import Outlining.Proofs.Pipeline.Rewrite

namespace Outlining.Pipeline

open Outlining.Bytecode Outlining.Window

variable {pipeline : Pipeline} {holds : Pipeline → Prop} {selection : List MethodIndex}

section Outcome

variable {α β : Type} {first : Pass α}

/-- The pipeline after a pass, whether the pass succeeds or fails. -/
def left : EStateM.Result Fault Pipeline α → Pipeline
  | .ok _ final => final
  | .error _ final => final

def fault? : EStateM.Result Fault Pipeline α → Option Fault
  | .ok _ _ => none
  | .error fault _ => some fault

/-- Whether a pass keeps what holds of a pipeline, both if it succeeds and if it fails. -/
def Keeps (holds : Pipeline → Prop) (pass : Pass α) : Prop :=
  ∀ pipeline, holds pipeline → holds (left (pass.run pipeline))

theorem left_bind_of_ok {item : α} {middle : Pipeline} (next : α → Pass β)
    (done : first.run pipeline = .ok item middle) :
    left ((first >>= next).run pipeline) = left ((next item).run middle) := by
  rw [run_bind_of_ok next done]

@[simp] theorem left_get_bind (next : Pipeline → Pass β) (pipeline : Pipeline) :
    left ((get >>= next).run pipeline) = left ((next pipeline).run pipeline) :=
  left_bind_of_ok next (EStateM.run_get _)

@[simp] theorem left_bind_pure (first : Pass α) (pipeline : Pipeline) (item : β) :
    left ((first >>= fun _ => pure item).run pipeline) = left (first.run pipeline) := by
  rw [EStateM.run_bind]
  cases first.run pipeline <;> rfl

@[simp] theorem fault?_bind_pure (first : Pass α) (pipeline : Pipeline) (item : β) :
    fault? ((first >>= fun _ => pure item).run pipeline) = fault? (first.run pipeline) := by
  rw [EStateM.run_bind]
  cases first.run pipeline <;> rfl

theorem holds_of_bind (holds : Pipeline → Prop) (next : α → Pass β)
    (start : holds (left (first.run pipeline)))
    (goes : ∀ item middle, first.run pipeline = .ok item middle →
      holds (left ((next item).run middle))) :
    holds (left ((first >>= next).run pipeline)) := by
  rw [EStateM.run_bind]
  cases done : first.run pipeline with
  | ok item middle => exact goes item middle done
  | error fault middle =>
    rw [done] at start
    exact start

theorem Keeps.bind {next : α → Pass β} (start : Keeps holds first)
    (goes : ∀ item, Keeps holds (next item)) : Keeps holds (first >>= next) := by
  intro pipeline held
  apply holds_of_bind holds next (start pipeline held)
  intro item middle done
  have kept := start pipeline held
  rw [done] at kept
  exact goes item middle kept

theorem keeps_throw (holds : Pipeline → Prop) (fault : Fault) :
    Keeps holds (throw fault : Pass α) :=
  fun _ held => held

theorem keeps_forM {items : List α} {action : α → Pass PUnit}
    (acts : ∀ item ∈ items, Keeps holds (action item)) : Keeps holds (items.forM action) := by
  induction items with
  | nil => exact fun _ held => held
  | cons item items inductionHypothesis =>
    apply Keeps.bind (acts item List.mem_cons_self)
    exact fun _ => inductionHypothesis fun other member => acts other (List.mem_cons_of_mem _ member)

theorem keeps_forEachCandidate {action : Candidate → Pass Unit} (method : Method)
    (acts : ∀ candidate, Keeps holds (action candidate)) :
    Keeps holds (forEachCandidate method action) := by
  intro pipeline held
  unfold forEachCandidate
  rw [left_get_bind]
  refine keeps_forM (fun found _ => ?_) pipeline held
  cases found with
  | error assertion => exact keeps_throw holds _
  | ok candidate => exact acts candidate

/-- Whether all faults of a pass are among the given ones. -/
def Raises (faults : Fault → Prop) (pass : Pass α) : Prop :=
  ∀ pipeline fault, fault? (pass.run pipeline) = some fault → faults fault

theorem fault?_bind_cases {next : α → Pass β} {fault : Fault}
    (failed : fault? ((first >>= next).run pipeline) = some fault) :
    fault? (first.run pipeline) = some fault ∨ ∃ item middle,
      first.run pipeline = .ok item middle ∧ fault? ((next item).run middle) = some fault := by
  rw [EStateM.run_bind] at failed
  cases done : first.run pipeline with
  | ok item middle =>
    rw [done] at failed
    exact .inr ⟨item, middle, rfl, failed⟩
  | error other middle =>
    rw [done] at failed
    exact .inl failed

variable {faults : Fault → Prop}

theorem raises_throw {fault : Fault} (known : faults fault) :
    Raises faults (throw fault : Pass α) := by
  intro pipeline other failed
  cases failed
  exact known

theorem Raises.bind {next : α → Pass β} (start : Raises faults first)
    (goes : ∀ item, Raises faults (next item)) : Raises faults (first >>= next) := by
  intro pipeline fault failed
  rcases fault?_bind_cases failed with here | ⟨item, middle, _, later⟩
  · exact start pipeline fault here
  · exact goes item middle fault later

theorem raises_forM {items : List α} {action : α → Pass PUnit}
    (acts : ∀ item ∈ items, Raises faults (action item)) :
    Raises faults (items.forM action) := by
  induction items with
  | nil => exact fun _ _ => nofun
  | cons item items inductionHypothesis =>
    apply Raises.bind (acts item List.mem_cons_self)
    exact fun _ => inductionHypothesis fun other member => acts other (List.mem_cons_of_mem _ member)

theorem raises_forEachCandidate {action : Candidate → Pass Unit} (method : Method)
    (broken : ∀ assertion, faults (.assertion assertion))
    (acts : ∀ candidate, Raises faults (action candidate)) :
    Raises faults (forEachCandidate method action) := by
  unfold forEachCandidate
  refine Raises.bind (fun _ _ => nofun) fun _ => raises_forM fun found _ => ?_
  cases found with
  | error assertion => exact raises_throw (broken assertion)
  | ok candidate => exact acts candidate

end Outcome

theorem run_advance_of_ne {expected : Phase} (next : Phase) (differs : pipeline.phase ≠ expected) :
    (advance expected next).run pipeline =
      .error (.passOrder expected pipeline.phase) pipeline := by
  unfold advance
  rw [run_bind_of_ok _ (EStateM.run_get _), if_pos differs]
  rfl

/-- What follows the check of the phase is not reached outside of the phase. -/
theorem run_advance_bind_of_ne {α : Type} {expected next : Phase} (rest : PUnit → Pass α)
    (differs : pipeline.phase ≠ expected) :
    (advance expected next >>= rest).run pipeline =
      .error (.passOrder expected pipeline.phase) pipeline := by
  rw [EStateM.run_bind, run_advance_of_ne next differs]

/-- What the steps that look for windows leave alone, but for the phase. -/
def standing (pipeline : Pipeline) : Options × Program × Phase × List Outline :=
  (pipeline.options, pipeline.program, pipeline.phase, pipeline.outlines)

theorem standing_left_survey (ready : pipeline.phase = .created) :
    (left (survey.run pipeline)).standing = { pipeline with phase := .surveyed }.standing := by
  unfold survey
  rw [left_bind_of_ok _ (run_advance .surveyed ready), left_get_bind]
  refine (show Keeps (·.standing = { pipeline with phase := .surveyed }.standing) _ from
    Keeps.bind (keeps_forM fun method _ => Keeps.bind ?_ fun _ => ?_) fun _ => ?_) _ rfl
  · exact fun _ held => held
  · exact keeps_forEachCandidate method fun candidate _ held => held
  · exact fun _ held => held

theorem standing_left_select (ready : pipeline.phase = .surveyed) :
    (left (select.run pipeline)).standing = { pipeline with phase := .selected }.standing := by
  unfold select
  rw [left_bind_of_ok _ (run_advance .selected ready)]
  rfl

theorem standing_left_record (selection : List MethodIndex) (ready : pipeline.phase = .selected) :
    (left ((record selection).run pipeline)).standing =
      { pipeline with phase := .recorded }.standing := by
  unfold record
  rw [left_bind_of_ok _ (run_advance .recorded ready), left_get_bind]
  refine (show Keeps (·.standing = { pipeline with phase := .recorded }.standing) _ from
    keeps_forM fun method _ => ?_) _ rfl
  exact keeps_forEachCandidate method fun candidate _ held => held

section Build

variable {type : Descriptor} {first : MethodIndex}

theorem run_build_of_ne (type : Descriptor) (first : MethodIndex)
    (differs : pipeline.phase ≠ .recorded) :
    (build type first).run pipeline = .error (.passOrder .recorded pipeline.phase) pipeline := by
  unfold build
  rw [run_bind_of_ok _ (EStateM.run_get _), if_neg fun both => differs both.1]
  exact run_advance_bind_of_ne _ differs

theorem run_build_of_isEmpty (type : Descriptor) (first : MethodIndex)
    (ready : pipeline.phase = .recorded) (unused : pipeline.ledger.isEmpty = true) :
    (build type first).run pipeline = .error .noSitesRecorded pipeline := by
  unfold build
  rw [run_bind_of_ok _ (EStateM.run_get _), if_pos ⟨ready, unused⟩]
  rfl

/-- A holder is built only after sites were recorded, from the templates with enough of them. -/
theorem of_run_build {holder : Holder} {final : Pipeline}
    (done : (build type first).run pipeline = .ok holder final) :
    pipeline.phase = .recorded ∧ pipeline.ledger.isEmpty = false ∧
      ∃ outlines, Holder.build type pipeline.options.nameStem first
          (pipeline.ledger.select pipeline.options.siteThreshold) = .ok (holder, outlines) ∧
        final = pipeline.builtWith holder outlines := by
  by_cases ready : pipeline.phase = .recorded
  · cases used : pipeline.ledger.isEmpty with
    | true =>
      rw [run_build_of_isEmpty type first ready used] at done
      cases done
    | false => exact ⟨ready, rfl, (run_build_eq_ok_iff type first ready used).mp done⟩
  · rw [run_build_of_ne type first ready] at done
    cases done

/-- A step that builds makes outlines, or fails and changes nothing but the phase. -/
theorem left_build_cases (type : Descriptor) (first : MethodIndex)
    (ready : pipeline.phase = .recorded) (used : pipeline.ledger.isEmpty = false) :
    (∃ holder outlines, (build type first).run pipeline =
      .ok holder (pipeline.builtWith holder outlines)) ∨
    left ((build type first).run pipeline) = { pipeline with phase := .built } := by
  cases done : (build type first).run pipeline with
  | ok holder final =>
    obtain ⟨_, _, outlines, _, rfl⟩ := of_run_build done
    exact .inl ⟨holder, outlines, rfl⟩
  | error fault final =>
    unfold build at done
    rw [run_bind_of_ok _ (EStateM.run_get _), if_neg (by simp [used]),
      run_bind_of_ok _ (run_advance .built ready), run_bind_of_ok _ (EStateM.run_get _)] at done
    dsimp only at done
    split at done
    · cases done
      exact .inr rfl
    · cases done

end Build

section Rewrite

variable (free : ∀ pipeline ledger statistics, holds pipeline →
  holds { pipeline with ledger := ledger, statistics := statistics })
include free

theorem keeps_edits (method : Method) (found : List Found) : Keeps holds (edits method found) := by
  induction found with
  | nil => exact fun _ held => held
  | cons first found inductionHypothesis =>
    cases first with
    | error assertion => exact keeps_throw holds _
    | ok candidate =>
      intro pipeline held
      rw [edits, left_get_bind]
      split
      · exact inductionHypothesis pipeline held
      · split
        · exact held
        · rename_i ledger _
          rw [left_bind_of_ok _ (EStateM.run_set ..)]
          have struck := free pipeline ledger pipeline.statistics held
          dsimp only
          split
          · exact struck
          · split
            · exact struck
            · refine Keeps.bind inductionHypothesis (fun others => ?_) _ struck
              exact fun _ held => held

/-- Rewriting a method strikes out sites and counts, and does nothing else to the pipeline. -/
theorem keeps_rewriteMethod (method : Method) : Keeps holds (rewriteMethod method) := by
  intro pipeline held
  unfold rewriteMethod
  rw [left_get_bind]
  refine Keeps.bind (keeps_edits free method _) (fun list pipeline held => ?_) pipeline held
  split
  · exact held
  · exact free pipeline pipeline.ledger _ held

/-- What holds of a pipeline whatever its program is, the loop of the rewriting step keeps. -/
theorem keeps_rewriteAll (items : List (Method × Nat))
    (moves : ∀ pipeline program, holds pipeline → holds { pipeline with program := program }) :
    Keeps holds (rewriteAll selection items) := by
  refine keeps_forM fun item _ => ?_
  dsimp only
  split
  · refine Keeps.bind (keeps_rewriteMethod free item.1) fun result => ?_
    exact fun pipeline held => moves pipeline _ held
  · exact fun _ held => held

end Rewrite

theorem left_check (pipeline : Pipeline) : left (check.run pipeline) = pipeline := by
  unfold check
  rw [left_get_bind]
  split <;> rfl

/-- The check in the end changes nothing, so that the rewriting step leaves what the methods
leave. -/
theorem left_rewrite (selection : List MethodIndex) (ready : pipeline.phase = .built) :
    left ((rewrite selection).run pipeline) =
      left ((rewriteAll selection pipeline.program.methods.zipIdx).run
        { pipeline with phase := .rewritten }) := by
  unfold rewrite
  rw [left_bind_of_ok _ (run_advance .rewritten ready), left_get_bind]
  change left ((rewriteAll selection _ >>= _).run _) = _
  rw [EStateM.run_bind]
  cases (rewriteAll selection pipeline.program.methods.zipIdx).run
      { pipeline with phase := .rewritten } with
  | error fault middle => rfl
  | ok item middle =>
    dsimp only
    split
    · exact left_check middle
    · rfl

theorem holds_left_rewrite (holds : Pipeline → Prop) (ready : pipeline.phase = .built)
    (start : holds { pipeline with phase := .rewritten })
    (acts : Keeps holds (rewriteAll selection pipeline.program.methods.zipIdx)) :
    holds (left ((rewrite selection).run pipeline)) := by
  rw [left_rewrite selection ready]
  exact acts _ start

section Raises

variable {faults : Fault → Prop} (broken : ∀ assertion, faults (.assertion assertion))
  (missing : ∀ method block start stop, faults (.siteNotFound method block start stop))
include broken missing

theorem raises_edits (method : Method) (found : List Found) :
    Raises faults (edits method found) := by
  induction found with
  | nil => exact fun _ _ => nofun
  | cons first found inductionHypothesis =>
    cases first with
    | error assertion => exact raises_throw (broken assertion)
    | ok candidate =>
      intro pipeline fault failed
      rw [edits, run_bind_of_ok _ (EStateM.run_get _)] at failed
      split at failed
      · exact inductionHypothesis pipeline fault failed
      · split at failed
        · cases failed
          exact missing ..
        · rw [run_bind_of_ok _ (EStateM.run_set ..)] at failed
          dsimp only at failed
          split at failed
          · cases failed
            exact broken _
          · split at failed
            · cases failed
              exact broken _
            · rcases fault?_bind_cases failed with here | ⟨_, _, _, later⟩
              · exact inductionHypothesis _ fault here
              · cases later

theorem raises_rewriteAll (selection : List MethodIndex) (items : List (Method × Nat)) :
    Raises faults (rewriteAll selection items) := by
  refine raises_forM fun item _ => ?_
  dsimp only
  split
  · refine Raises.bind ?_ fun result _ _ => nofun
    unfold rewriteMethod
    refine Raises.bind (fun _ _ => nofun) fun _ => Raises.bind (raises_edits broken missing _ _)
      fun list => ?_
    split
    · exact fun _ _ => nofun
    · exact fun _ _ => nofun
  · exact fun _ _ => nofun

theorem raises_rewrite (selection : List MethodIndex)
    (leftover : ∀ outline remaining, faults (.sitesRemaining outline remaining))
    (ready : pipeline.phase = .built) {fault : Fault}
    (failed : fault? ((rewrite selection).run pipeline) = some fault) : faults fault := by
  unfold rewrite at failed
  rw [run_bind_of_ok _ (run_advance .rewritten ready), run_bind_of_ok _ (EStateM.run_get _)]
    at failed
  refine Raises.bind (raises_rewriteAll broken missing selection _) (fun _ => ?_) _ fault failed
  split
  · unfold check
    refine Raises.bind (fun _ _ => nofun) fun pipeline => ?_
    split
    · exact raises_throw (leftover _ _)
    · exact fun _ _ => nofun
  · exact fun _ _ => nofun

end Raises

/-- Rewriting changes neither the options nor the outlines, and goes to the last phase. -/
theorem phase_left_rewrite (selection : List MethodIndex) (ready : pipeline.phase = .built) :
    (left ((rewrite selection).run pipeline)).phase = .rewritten ∧
      (left ((rewrite selection).run pipeline)).options = pipeline.options ∧
      (left ((rewrite selection).run pipeline)).outlines = pipeline.outlines :=
  holds_left_rewrite (fun other => other.phase = .rewritten ∧ other.options = pipeline.options ∧
      other.outlines = pipeline.outlines) ready ⟨rfl, rfl, rfl⟩
    (keeps_rewriteAll (fun _ _ _ held => held) _ fun _ _ held => held)

section NoOutlines

variable {method : Method}

theorem run_edits_of_no_outlines (none : pipeline.outlines = []) (found : List Found) :
    (edits method found).run pipeline = .ok [] pipeline ∨
      ∃ assertion, (edits method found).run pipeline = .error (.assertion assertion) pipeline := by
  induction found with
  | nil => exact .inl rfl
  | cons first found inductionHypothesis =>
    cases first with
    | error assertion => exact .inr ⟨assertion, rfl⟩
    | ok candidate =>
      have unknown : outlineFor? pipeline.outlines candidate.template = .none := by
        rw [none]
        rfl
      rw [run_edits_cons_of_none unknown]
      exact inductionHypothesis

theorem run_rewriteMethod_of_no_outlines (none : pipeline.outlines = []) :
    (rewriteMethod method).run pipeline = .ok method pipeline ∨
      ∃ assertion, (rewriteMethod method).run pipeline =
        .error (.assertion assertion) pipeline := by
  unfold rewriteMethod
  rw [run_bind_of_ok _ (EStateM.run_get _), EStateM.run_bind]
  rcases run_edits_of_no_outlines none (method.scan pipeline.options.limits) with
    done | ⟨assertion, failed⟩
  · rw [done]
    exact .inl rfl
  · rw [failed]
    exact .inr ⟨assertion, rfl⟩

theorem left_rewrite_of_no_outlines (selection : List MethodIndex)
    (ready : pipeline.phase = .built) (none : pipeline.outlines = []) :
    left ((rewrite selection).run pipeline) = { pipeline with phase := .rewritten } := by
  apply holds_left_rewrite (· = { pipeline with phase := .rewritten }) ready rfl
  refine keeps_forM fun item listed => ?_
  have there := List.mem_zipIdx_iff_getElem?.mp listed
  dsimp only
  split
  · rintro _ rfl
    refine holds_of_bind (· = { pipeline with phase := .rewritten }) _ ?_ fun result middle done => ?_
    · rcases @run_rewriteMethod_of_no_outlines { pipeline with phase := .rewritten } item.1 none with
        done | ⟨_, failed⟩
      · rw [done, left]
      · rw [failed, left]
    · rcases @run_rewriteMethod_of_no_outlines { pipeline with phase := .rewritten } item.1 none with
        same | ⟨_, failed⟩
      · rw [same] at done
        cases done
        rw [run_replaceMethod, left]
        -- the method put into its place is the one that stands there
        obtain ⟨inside, same⟩ := List.getElem?_eq_some_iff.mp there
        simp only [← same, List.set_getElem_self]
      · rw [failed] at done
        cases done
  · exact fun _ held => held

end NoOutlines

end Outlining.Pipeline
