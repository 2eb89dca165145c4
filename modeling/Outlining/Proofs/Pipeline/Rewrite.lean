import Outlining.Proofs.Pipeline.Pass

namespace Outlining

open Outlining.Bytecode Outlining.Window

/-- Strikes sites out one after the other. -/
def Ledger.strikeAll? (ledger : Ledger) : List (TemplateIndex × Site) → Option Ledger
  | [] => some ledger
  | (index, site) :: rest => (ledger.strike? index site).bind (·.strikeAll? rest)

theorem Ledger.strikeAll?_append (ledger : Ledger) (first second : List (TemplateIndex × Site)) :
    ledger.strikeAll? (first ++ second) =
      (ledger.strikeAll? first).bind (·.strikeAll? second) := by
  induction first generalizing ledger with
  | nil => rfl
  | cons strike first inductionHypothesis =>
    obtain ⟨index, site⟩ := strike
    rw [List.cons_append, strikeAll?, strikeAll?, Option.bind_assoc]
    exact congrArg _ (funext fun next => inductionHypothesis next)

namespace Pipeline

variable {pipeline final : Pipeline} {method : Method} {limits : Limits}

/-- The windows that have an outline. -/
def hits (outlines : List Outline) (candidates : List Candidate) : List (Outline × Candidate) :=
  candidates.filterMap fun candidate =>
    (outlineFor? outlines candidate.template).map fun outline => (outline, candidate)

def strikes (method : Method) (hits : List (Outline × Candidate)) :
    List (TemplateIndex × Site) :=
  hits.map fun hit => (hit.1.index, siteOf method.index hit.2)

/-- The edit that replaces a window by the call of its outline. -/
def editOf (method : Method) (hit : Outline × Candidate) : Edit :=
  ⟨hit.2.block, hit.2.start, hit.2.stop, callFor hit.1 hit.2 (windowOf method hit.2)⟩

/-- Whether the checks made before a window is replaced pass. -/
structure Replaceable (method : Method) (hit : Outline × Candidate) : Prop where
  passes : hit.2.arguments.length = hit.1.reference.prototype.parameters.length
  ends : (windowOf method hit.2).getLast?.any (·.isOperation) = true

theorem hits_cons_of_none {outlines : List Outline} {candidate : Candidate}
    (none : outlineFor? outlines candidate.template = none) (candidates : List Candidate) :
    hits outlines (candidate :: candidates) = hits outlines candidates := by
  simp [hits, none]

theorem hits_cons_of_some {outlines : List Outline} {candidate : Candidate} {outline : Outline}
    (some : outlineFor? outlines candidate.template = some outline)
    (candidates : List Candidate) :
    hits outlines (candidate :: candidates) = (outline, candidate) :: hits outlines candidates := by
  simp [hits, some]

section Edits

variable {candidate : Candidate} {outline : Outline} {next : Ledger}

theorem run_edits_cons_of_none (known : outlineFor? pipeline.outlines candidate.template = none)
    (rest : List Found) : (edits method (.ok candidate :: rest)).run pipeline =
      (edits method rest).run pipeline := by
  rw [edits, run_bind_of_ok _ (EStateM.run_get _)]
  simp only [known]

theorem run_edits_cons_of_missing
    (known : outlineFor? pipeline.outlines candidate.template = some outline)
    (missing : pipeline.ledger.strike? outline.index (siteOf method.index candidate) = none)
    (rest : List Found) : (edits method (.ok candidate :: rest)).run pipeline = .error
      (.siteNotFound method.reference candidate.block candidate.start candidate.stop) pipeline := by
  rw [edits, run_bind_of_ok _ (EStateM.run_get _)]
  simp only [known, missing]
  rfl

theorem run_edits_cons_of_struck
    (known : outlineFor? pipeline.outlines candidate.template = some outline)
    (struck : pipeline.ledger.strike? outline.index (siteOf method.index candidate) = some next)
    (fine : Replaceable method (outline, candidate)) (rest : List Found) :
    (edits method (.ok candidate :: rest)).run pipeline =
      (edits method rest >>= fun others =>
        pure (editOf method (outline, candidate) :: others)).run
          { pipeline with ledger := next } := by
  rw [edits, run_bind_of_ok _ (EStateM.run_get _)]
  simp only [known, struck]
  rw [run_bind_of_ok _ (EStateM.run_set ..), if_neg (not_not.mpr fine.passes),
    if_neg (by simp [fine.ends])]
  rfl

/-- A window that was struck out but may not be replaced breaks an assertion. -/
theorem run_edits_cons_of_refused
    (known : outlineFor? pipeline.outlines candidate.template = some outline)
    (struck : pipeline.ledger.strike? outline.index (siteOf method.index candidate) = some next)
    (refused : ¬ Replaceable method (outline, candidate)) (rest : List Found) :
    ∃ assertion stopped, (edits method (.ok candidate :: rest)).run pipeline =
      .error (.assertion assertion) stopped := by
  rw [edits, run_bind_of_ok _ (EStateM.run_get _)]
  simp only [known, struck]
  rw [run_bind_of_ok _ (EStateM.run_set ..)]
  by_cases passes : candidate.arguments.length = outline.reference.prototype.parameters.length
  · have broken : (windowOf method candidate).getLast?.any (·.isOperation) = false := by
      rw [← Bool.not_eq_true]
      exact fun ends => refused ⟨passes, ends⟩
    rw [if_neg (not_not.mpr passes), if_pos (by simp [broken])]
    exact ⟨_, _, rfl⟩
  · rw [if_pos passes]
    exact ⟨_, _, rfl⟩

end Edits

theorem run_edits_eq_ok_iff {candidates : List Candidate} {list : List Edit} :
    (edits method (candidates.map .ok)).run pipeline = .ok list final ↔
      ∃ ledger, pipeline.ledger.strikeAll?
          (strikes method (hits pipeline.outlines candidates)) = some ledger ∧
        (∀ hit ∈ hits pipeline.outlines candidates, Replaceable method hit) ∧
        list = (hits pipeline.outlines candidates).map (editOf method) ∧
        final = { pipeline with ledger := ledger } := by
  induction candidates generalizing pipeline list final with
  | nil =>
    constructor
    · intro done
      cases done
      exact ⟨_, rfl, by simp [hits], rfl, rfl⟩
    · rintro ⟨ledger, struck, _, rfl, rfl⟩
      cases struck
      rfl
  | cons candidate candidates inductionHypothesis =>
    rw [List.map_cons]
    cases known : outlineFor? pipeline.outlines candidate.template with
    | none =>
      rw [hits_cons_of_none known, run_edits_cons_of_none known]
      exact inductionHypothesis
    | some outline =>
      rw [hits_cons_of_some known]
      simp only [strikes, List.map_cons, Ledger.strikeAll?, List.forall_mem_cons]
      cases struck : pipeline.ledger.strike? outline.index (siteOf method.index candidate) with
      | none =>
        rw [run_edits_cons_of_missing known struck]
        refine ⟨nofun, ?_⟩
        rintro ⟨_, none, _⟩
        cases none
      | some next =>
        by_cases replaceable : Replaceable method (outline, candidate)
        · rw [run_edits_cons_of_struck known struck replaceable, run_bind_eq_ok_iff]
          constructor
          · rintro ⟨others, middle, rest, done⟩
            obtain ⟨ledger, struck, all, rfl, rfl⟩ := inductionHypothesis.mp rest
            cases done
            exact ⟨ledger, struck, ⟨replaceable, all⟩, rfl, rfl⟩
          · rintro ⟨ledger, struck, ⟨_, all⟩, rfl, rfl⟩
            exact ⟨_, _, inductionHypothesis.mpr ⟨ledger, struck, all, rfl, rfl⟩, rfl⟩
        · obtain ⟨assertion, stopped, failed⟩ :=
            run_edits_cons_of_refused known struck replaceable (candidates.map .ok)
          rw [failed]
          refine ⟨nofun, ?_⟩
          rintro ⟨_, _, ⟨fine, _⟩, _⟩
          exact absurd fine replaceable

/-- The edits that replace all windows of a method that have an outline. -/
def editsFor (outlines : List Outline) (limits : Limits) (method : Method) : List Edit :=
  (hits outlines (found limits method)).map (editOf method)

def rewritten (outlines : List Outline) (limits : Limits) (method : Method) : Method :=
  if (editsFor outlines limits method).isEmpty then method
  else Rewriting.apply (editsFor outlines limits method) (.ofMethod method) method

/-- Rewriting changes nothing of a method but its blocks. -/
theorem rewritten_eq (outlines : List Outline) (limits : Limits) (method : Method) :
    rewritten outlines limits method =
      { method with blocks := (rewritten outlines limits method).blocks } := by
  unfold rewritten
  split
  · rfl
  · rfl

/-- The statistics after the rewriting of a method. -/
def tally (outlines : List Outline) (limits : Limits) (statistics : Statistics)
    (method : Method) : Statistics :=
  { statistics with
    sitesRewritten := statistics.sitesRewritten + (editsFor outlines limits method).length
    instructionsRemoved := statistics.instructionsRemoved +
      (Rewriting.removedFrom (editsFor outlines limits method) method).length }

theorem removedFrom_nil (method : Method) : Rewriting.removedFrom [] method = [] := by
  simp [Rewriting.removedFrom, Rewriting.editsOf, Rewriting.windows]

theorem tally_of_isEmpty {outlines : List Outline} (statistics : Statistics)
    (none : editsFor outlines limits method = []) :
    tally outlines limits statistics method = statistics := by
  simp [tally, none, removedFrom_nil]

theorem run_rewriteMethod_eq_ok_iff {result : Method}
    (sound : Sound pipeline.options.limits method) :
    (rewriteMethod method).run pipeline = .ok result final ↔
      ∃ ledger, pipeline.ledger.strikeAll? (strikes method
          (hits pipeline.outlines (found pipeline.options.limits method))) = some ledger ∧
        (∀ hit ∈ hits pipeline.outlines (found pipeline.options.limits method),
          Replaceable method hit) ∧
        result = rewritten pipeline.outlines pipeline.options.limits method ∧
        final = { pipeline with
          ledger := ledger
          statistics :=
            tally pipeline.outlines pipeline.options.limits pipeline.statistics method } := by
  unfold rewriteMethod
  rw [run_bind_of_ok _ (EStateM.run_get _), sound.scan_eq, run_bind_eq_ok_iff]
  simp only [run_edits_eq_ok_iff]
  rw [rewritten]
  change (∃ list middle, (∃ ledger, _ ∧ _ ∧ list = editsFor _ _ _ ∧ _) ∧ _) ↔ _
  cases empty : editsFor pipeline.outlines pipeline.options.limits method with
  | nil =>
    rw [tally_of_isEmpty _ empty]
    constructor
    · rintro ⟨_, _, ⟨ledger, struck, all, rfl, rfl⟩, done⟩
      cases done
      exact ⟨ledger, struck, all, rfl, rfl⟩
    · rintro ⟨ledger, struck, all, rfl, rfl⟩
      exact ⟨_, _, ⟨ledger, struck, all, rfl, rfl⟩, rfl⟩
  | cons first rest =>
    rw [tally, empty]
    constructor
    · rintro ⟨_, _, ⟨ledger, struck, all, rfl, rfl⟩, done⟩
      cases done
      exact ⟨ledger, struck, all, rfl, rfl⟩
    · rintro ⟨ledger, struck, all, rfl, rfl⟩
      exact ⟨_, _, ⟨ledger, struck, all, rfl, rfl⟩, rfl⟩

/-- The sites of all windows that have an outline, method by method. -/
def allStrikes (outlines : List Outline) (limits : Limits) (methods : List Method) :
    List (TemplateIndex × Site) :=
  methods.flatMap fun method => strikes method (hits outlines (found limits method))

/-- A method as it is in the end. -/
def outcome (outlines : List Outline) (limits : Limits) (selection : List MethodIndex)
    (method : Method) : Method :=
  if isChosen selection method then rewritten outlines limits method else method

theorem outcome_eq (outlines : List Outline) (limits : Limits) (selection : List MethodIndex)
    (method : Method) : outcome outlines limits selection method =
      { method with blocks := (outcome outlines limits selection method).blocks } := by
  unfold outcome
  split
  · exact rewritten_eq outlines limits method
  · rfl

section Empty

variable (limits : Limits)

@[simp] theorem editsFor_nil (method : Method) : editsFor [] limits method = [] := by
  simp [editsFor, hits, outlineFor?]

theorem outcome_nil (selection : List MethodIndex) : outcome [] limits selection = id := by
  funext method
  simp [outcome, rewritten]

theorem foldl_tally_nil (methods : List Method) (statistics : Statistics) :
    methods.foldl (tally [] limits) statistics = statistics := by
  induction methods with
  | nil => rfl
  | cons method methods inductionHypothesis =>
    rw [List.foldl_cons, tally_of_isEmpty _ (editsFor_nil limits method), inductionHypothesis]

end Empty

theorem synthetic_of_isChosen {selection : List MethodIndex}
    (chosen : isChosen selection method = true) : method.synthetic = false := by
  rw [isChosen, Bool.and_eq_true, Bool.not_eq_true'] at chosen
  exact chosen.1

/-- Rewrites the methods that stand at the given places, where they are chosen. -/
def rewriteAll (selection : List MethodIndex) (items : List (Method × Nat)) : Pass Unit :=
  items.forM fun (method, place) => do
    if isChosen selection method then
      replaceMethod place (← rewriteMethod method)

/-- The methods of the program after some of them were replaced. -/
def placeAll (outlines : List Outline) (limits : Limits) (selection : List MethodIndex)
    (methods : List Method) (items : List (Method × Nat)) : List Method :=
  items.foldl (fun methods item =>
    if isChosen selection item.1 then methods.set item.2 (rewritten outlines limits item.1)
    else methods) methods

theorem rewriteAll_cons_of_not_chosen {selection : List MethodIndex} (place : Nat)
    (items : List (Method × Nat)) (skipped : isChosen selection method = false) :
    rewriteAll selection ((method, place) :: items) = rewriteAll selection items := by
  rw [rewriteAll, List.forM]
  simp only [skipped]
  rfl

theorem rewriteAll_cons_of_chosen {selection : List MethodIndex} (place : Nat)
    (items : List (Method × Nat)) (chosen : isChosen selection method = true) :
    rewriteAll selection ((method, place) :: items) =
      rewriteMethod method >>= fun result =>
        replaceMethod place result >>= fun _ => rewriteAll selection items := by
  rw [rewriteAll, List.forM]
  simp only [chosen, if_true, bind_assoc]
  rfl

theorem run_replaceMethod (place : Nat) (method : Method) (pipeline : Pipeline) :
    (replaceMethod place method).run pipeline =
      .ok ⟨⟩ { pipeline with program := ⟨pipeline.program.methods.set place method⟩ } := rfl

theorem run_rewriteAll_eq_ok_iff {selection : List MethodIndex} {items : List (Method × Nat)}
    (sound : ∀ item ∈ items, item.1.synthetic = false → Sound pipeline.options.limits item.1) :
    (rewriteAll selection items).run pipeline = .ok ⟨⟩ final ↔
      ∃ ledger, pipeline.ledger.strikeAll? (allStrikes pipeline.outlines pipeline.options.limits
          ((items.map Prod.fst).filter (isChosen selection))) = some ledger ∧
        (∀ method ∈ (items.map Prod.fst).filter (isChosen selection),
          ∀ hit ∈ hits pipeline.outlines (found pipeline.options.limits method),
            Replaceable method hit) ∧
        final = { pipeline with
          program := ⟨placeAll pipeline.outlines pipeline.options.limits selection
            pipeline.program.methods items⟩
          ledger := ledger
          statistics := ((items.map Prod.fst).filter (isChosen selection)).foldl
            (tally pipeline.outlines pipeline.options.limits) pipeline.statistics } := by
  induction items generalizing pipeline final with
  | nil =>
    constructor
    · intro done
      cases done
      exact ⟨_, rfl, by simp, rfl⟩
    · rintro ⟨ledger, struck, _, rfl⟩
      cases struck
      rfl
  | cons item items inductionHypothesis =>
    obtain ⟨method, place⟩ := item
    have others : ∀ item ∈ items, item.1.synthetic = false →
        Sound pipeline.options.limits item.1 :=
      fun other member => sound other (List.mem_cons_of_mem _ member)
    cases picked : isChosen selection method with
    | false =>
      rw [rewriteAll_cons_of_not_chosen place items picked, inductionHypothesis others]
      simp [placeAll, picked]
    | true =>
      have plain := synthetic_of_isChosen picked
      rw [rewriteAll_cons_of_chosen place items picked, run_bind_eq_ok_iff]
      simp only [run_rewriteMethod_eq_ok_iff (sound _ List.mem_cons_self plain)]
      simp only [List.map_cons, List.filter_cons_of_pos picked, allStrikes, List.flatMap_cons,
        Ledger.strikeAll?_append, List.forall_mem_cons, List.foldl_cons, placeAll, picked, if_true]
      constructor
      · rintro ⟨_, middle, ⟨ledger, struck, all, rfl, rfl⟩, rest⟩
        rw [run_bind_of_ok _ (run_replaceMethod ..)] at rest
        obtain ⟨last, struckToo, allToo, rfl⟩ := (inductionHypothesis (by exact others)).mp rest
        exact ⟨last, by rw [struck]; exact struckToo, ⟨all, allToo⟩, rfl⟩
      · rintro ⟨last, struck, ⟨all, allToo⟩, rfl⟩
        obtain ⟨ledger, struck, struckToo⟩ := Option.bind_eq_some_iff.mp struck
        refine ⟨_, _, ⟨ledger, struck, all, rfl, rfl⟩, ?_⟩
        rw [run_bind_of_ok _ (run_replaceMethod ..)]
        exact (inductionHypothesis (by exact others)).mpr ⟨last, struckToo, allToo, rfl⟩

theorem placeAll_zipIdx (outlines : List Outline) (limits : Limits)
    (selection : List MethodIndex) (done rest : List Method) :
    placeAll outlines limits selection (done ++ rest) (rest.zipIdx done.length) =
      done ++ rest.map (outcome outlines limits selection) := by
  induction rest generalizing done with
  | nil => rfl
  | cons method rest inductionHypothesis =>
    have placed : (if isChosen selection method then
        (done ++ method :: rest).set done.length (rewritten outlines limits method)
        else done ++ method :: rest) =
        (done ++ [outcome outlines limits selection method]) ++ rest := by
      unfold outcome
      split <;> simp
    have next := inductionHypothesis (done ++ [outcome outlines limits selection method])
    rw [List.length_append, List.length_singleton] at next
    rw [List.zipIdx_cons, placeAll, List.foldl_cons, placed]
    simpa [placeAll] using next

theorem run_rewriteAll_zipIdx_eq_ok_iff {selection : List MethodIndex}
    (sound : ∀ method ∈ pipeline.program.methods, method.synthetic = false →
      Sound pipeline.options.limits method) :
    (rewriteAll selection pipeline.program.methods.zipIdx).run pipeline = .ok ⟨⟩ final ↔
      ∃ ledger, pipeline.ledger.strikeAll? (allStrikes pipeline.outlines pipeline.options.limits
          (chosen selection pipeline.program)) = some ledger ∧
        (∀ method ∈ chosen selection pipeline.program,
          ∀ hit ∈ hits pipeline.outlines (found pipeline.options.limits method),
            Replaceable method hit) ∧
        final = { pipeline with
          program := ⟨pipeline.program.methods.map
            (outcome pipeline.outlines pipeline.options.limits selection)⟩
          ledger := ledger
          statistics := (chosen selection pipeline.program).foldl
            (tally pipeline.outlines pipeline.options.limits) pipeline.statistics } := by
  have placed := placeAll_zipIdx pipeline.outlines pipeline.options.limits selection []
    pipeline.program.methods
  simp only [List.nil_append, List.length_nil] at placed
  rw [run_rewriteAll_eq_ok_iff, List.zipIdx_map_fst, placed, chosen]
  intro item member
  refine sound item.1 ?_
  rw [← List.zipIdx_map_fst 0 pipeline.program.methods]
  exact List.mem_map_of_mem member

theorem run_check_eq_ok_iff : check.run pipeline = .ok ⟨⟩ final ↔
    pipeline.leftover? = none ∧ final = pipeline := by
  unfold check
  rw [run_bind_of_ok _ (EStateM.run_get _)]
  cases pipeline.leftover? with
  | none => simp [eq_comm]
  | some left => simp

/-- The rewriting step ends with a check if the options say so. -/
private theorem run_rewrite_eq_ok_iff_check {selection : List MethodIndex}
    (ready : pipeline.phase = .built) :
    (rewrite selection).run pipeline = .ok ⟨⟩ final ↔
      (rewriteAll selection pipeline.program.methods.zipIdx).run
          { pipeline with phase := .rewritten } = .ok ⟨⟩ final ∧
        (pipeline.options.verify = true → final.leftover? = none) := by
  unfold rewrite
  rw [run_bind_of_ok _ (run_advance .rewritten ready), run_bind_of_ok _ (EStateM.run_get _),
    run_bind_eq_ok_iff]
  cases verify : pipeline.options.verify with
  | false =>
    constructor
    · rintro ⟨_, middle, looped, done⟩
      cases done
      exact ⟨looped, nofun⟩
    · rintro ⟨looped, _⟩
      exact ⟨_, _, looped, rfl⟩
  | true =>
    constructor
    · rintro ⟨_, middle, looped, checked⟩
      obtain ⟨complete, rfl⟩ := run_check_eq_ok_iff.mp (by simpa [verify] using checked)
      exact ⟨looped, fun _ => complete⟩
    · rintro ⟨looped, complete⟩
      refine ⟨_, _, looped, ?_⟩
      simpa [verify] using run_check_eq_ok_iff.mpr ⟨complete rfl, rfl⟩

/-- The pipeline after the rewriting step. -/
def rewrittenWith (selection : List MethodIndex) (pipeline : Pipeline) (ledger : Ledger) :
    Pipeline :=
  { pipeline with
    phase := .rewritten
    program := ⟨pipeline.program.methods.map
      (outcome pipeline.outlines pipeline.options.limits selection)⟩
    ledger := ledger
    statistics := (chosen selection pipeline.program).foldl
      (tally pipeline.outlines pipeline.options.limits) pipeline.statistics }

/-- The rewriting step succeeds if every site is found, and checks in the end that none is left. -/
theorem run_rewrite_eq_ok_iff {selection : List MethodIndex} (ready : pipeline.phase = .built)
    (sound : ∀ method ∈ pipeline.program.methods, method.synthetic = false →
      Sound pipeline.options.limits method) :
    (rewrite selection).run pipeline = .ok ⟨⟩ final ↔
      ∃ ledger, pipeline.ledger.strikeAll? (allStrikes pipeline.outlines pipeline.options.limits
          (chosen selection pipeline.program)) = some ledger ∧
        (∀ method ∈ chosen selection pipeline.program,
          ∀ hit ∈ hits pipeline.outlines (found pipeline.options.limits method),
            Replaceable method hit) ∧
        final = rewrittenWith selection pipeline ledger ∧
        (pipeline.options.verify = true → final.leftover? = none) := by
  have looped := @run_rewriteAll_zipIdx_eq_ok_iff { pipeline with phase := .rewritten } final
    selection sound
  rw [run_rewrite_eq_ok_iff_check ready, looped]
  constructor
  · rintro ⟨⟨ledger, struck, all, same⟩, complete⟩
    exact ⟨ledger, struck, all, same, complete⟩
  · rintro ⟨ledger, struck, all, same, complete⟩
    exact ⟨⟨ledger, struck, all, same⟩, complete⟩

end Pipeline

end Outlining
