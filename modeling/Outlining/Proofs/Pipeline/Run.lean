import Outlining.Proofs.Holder
import Outlining.Proofs.Pipeline.Rewrite

namespace Outlining.Pipeline

open Outlining.Bytecode Outlining.Window

variable {options : Options} {program : Program} {pipeline final : Pipeline}
  {selection : List MethodIndex} {holder : Holder} {returned : Option Holder}

/-- The census after the first pass. -/
def censusOf (options : Options) (program : Program) : Census :=
  (program.methods.filter (!·.synthetic)).foldl (noted options.limits) .empty

def selectionOf (options : Options) (program : Program) : List MethodIndex :=
  (censusOf options program).select options.methodThreshold

/-- The sites in these methods, each with its template. -/
def sitesIn (options : Options) (program : Program) : List (Template × Site) :=
  (chosen (selectionOf options program) program).flatMap (entriesOf options.limits)

/-- The ledger after the second pass. -/
def ledgerOf (options : Options) (program : Program) : Ledger :=
  Ledger.empty.recordAll (sitesIn options program)

def templatesOf (options : Options) (program : Program) : List (TemplateIndex × Template) :=
  (ledgerOf options program).select options.siteThreshold

/-- The steps from the building of the holder on. -/
def finish (selection : List MethodIndex) : Pass (Option Holder) := do
  let recorded ← get
  if recorded.ledger.isEmpty then return none
  let holder ← build recorded.options.holderType recorded.program.methods.length
  if holder.methods.isEmpty then return none
  rewrite selection
  modify fun pipeline =>
    { pipeline with program := holder.methods.foldl Program.append pipeline.program }
  return some holder

def AllSound (options : Options) (program : Program) : Prop :=
  ∀ method ∈ program.methods, method.synthetic = false → Sound options.limits method

/-- What the passes that only look at the program count. -/
def counted (options : Options) (program : Program) : Statistics :=
  { Statistics.zero with
    methodsScanned := (program.methods.filter (!·.synthetic)).length
    candidates := ((program.methods.filter (!·.synthetic)).flatMap (found options.limits)).length
    templates := (censusOf options program).size
    methodsSelected := (selectionOf options program).length
    sites := (sitesIn options program).length }

/-- The pipeline after these passes. -/
def recordedOf (options : Options) (program : Program) : Pipeline where
  options := options
  program := program
  phase := .recorded
  census := .empty
  ledger := ledgerOf options program
  outlines := []
  statistics := counted options program

/-- The passes that only look at the program always succeed. -/
theorem run_eq_finish (enabled : options.enabled = true)
    (sound : AllSound options program) :
    run.run (start options program) =
      (finish (selectionOf options program)).run (recordedOf options program) := by
  unfold run
  rw [run_bind_of_ok _ (EStateM.run_get _), if_neg (by simp [start, enabled]),
    run_bind_of_ok _ (run_survey rfl (by exact sound)),
    run_bind_of_ok _ (run_select rfl), run_bind_of_ok _ (run_record _ rfl (by exact sound))]
  simp only [start, Statistics.zero, Nat.zero_add]
  rfl

theorem run_of_disabled (disabled : options.enabled = false) :
    run.run (start options program) = .ok none (start options program) := by
  unfold run
  rw [run_bind_of_ok _ (EStateM.run_get _), if_pos (by simp [start, disabled])]
  rfl

theorem run_finish_eq_ok_iff :
    (finish selection).run pipeline = .ok returned final ↔
      (pipeline.ledger.isEmpty = true ∧ returned = none ∧ final = pipeline) ∨
      (pipeline.ledger.isEmpty = false ∧ ∃ holder built,
        (build pipeline.options.holderType pipeline.program.methods.length).run pipeline =
          .ok holder built ∧
        ((holder.methods = [] ∧ returned = none ∧ final = built) ∨
        (holder.methods ≠ [] ∧ ∃ done, (rewrite selection).run built = .ok ⟨⟩ done ∧
          returned = some holder ∧ final = { done with
            program := holder.methods.foldl Program.append done.program }))) := by
  unfold finish
  rw [run_bind_of_ok _ (EStateM.run_get _)]
  cases empty : pipeline.ledger.isEmpty with
  | true => simp [eq_comm]
  | false =>
    simp only [Bool.false_eq_true, if_false, false_and, false_or, true_and]
    rw [run_bind_eq_ok_iff]
    refine exists_congr fun holder => exists_congr fun built => and_congr_right fun _ => ?_
    cases methods : holder.methods with
    | nil => simp [eq_comm]
    | cons method rest =>
      simp only [List.isEmpty_cons, Bool.false_eq_true, if_false, reduceCtorEq, false_and,
        false_or, ne_eq, not_false_eq_true, true_and]
      rw [run_bind_eq_ok_iff]
      constructor
      · rintro ⟨_, done, rewritten, rest⟩
        cases rest
        exact ⟨done, rewritten, rfl, rfl⟩
      · rintro ⟨done, rewritten, rfl, rfl⟩
        exact ⟨_, done, rewritten, rfl⟩

theorem foldl_append {methods : List Method} (program : Program)
    (placed : ∀ place method, methods[place]? = some method →
      method.index = program.methods.length + place) :
    methods.foldl Program.append program = ⟨program.methods ++ methods⟩ := by
  induction methods generalizing program with
  | nil => simp
  | cons method methods inductionHypothesis =>
    have index : method.index = program.methods.length := placed 0 method rfl
    have same : program.append method = ⟨program.methods ++ [method]⟩ := by
      rw [Program.append, ← index]
    rw [List.foldl_cons, same, inductionHypothesis]
    · simp
    · intro place other found
      have next := placed (place + 1) other (by simpa using found)
      simpa [Nat.add_assoc, Nat.add_comm 1] using next

/-- The outlines made for the frequent templates. -/
def Builds (options : Options) (program : Program) (made : List (Outline × Method)) : Prop :=
  Holder.outlines options.holderType options.nameStem program.methods.length 0
    (templatesOf options program) = .ok made

def holderOf (options : Options) (made : List (Outline × Method)) : Holder :=
  ⟨options.holderType, .object, "outline", made.map (·.2)⟩

theorem accounts_ledgerOf (options : Options) (program : Program) :
    (ledgerOf options program).Accounts (sitesIn options program) :=
  Ledger.accounts_recordAll _

theorem templatesOf_of_isEmpty (unused : (ledgerOf options program).isEmpty = true) :
    templatesOf options program = [] := by
  rw [(accounts_ledgerOf options program).isEmpty_iff] at unused
  simp [templatesOf, ledgerOf, unused, Ledger.recordAll, Ledger.empty, Ledger.select]

theorem build_templatesOf_eq_ok_iff {all : List Outline} :
    Holder.build options.holderType options.nameStem program.methods.length
        ((ledgerOf options program).select options.siteThreshold) = .ok (holder, all) ↔
      ∃ made, Builds options program made ∧ holder = holderOf options made ∧
        all = made.map (·.1) := by
  rw [Holder.build_eq_ok_iff, (accounts_ledgerOf options program).inOrder_select]
  simp only [true_and]
  rfl

theorem index_of_made {made : List (Outline × Method)} {first : MethodIndex} {stem : String}
    {type : Descriptor} {templates : List (TemplateIndex × Template)}
    (built : Holder.outlines type stem first 0 templates = .ok made) (place : Nat)
    (method : Method) (found : (made.map (·.2))[place]? = some method) :
    method.index = first + place := by
  rw [List.getElem?_map, Option.map_eq_some_iff] at found
  obtain ⟨result, found, rfl⟩ := found
  obtain ⟨entry, _, known⟩ := (Holder.made_of_outlines built place).1 result found
  simpa using (Template.of_body_eq_ok known.body).1

/-- The pipeline after a holder was built from what these passes recorded. -/
def builtOf (options : Options) (program : Program) (made : List (Outline × Method)) : Pipeline :=
  (recordedOf options program).builtWith (holderOf options made) (made.map (·.1))

/-- The pipeline after a run that has replaced windows and appended the outlines. -/
def outlinedOf (options : Options) (program : Program) (made : List (Outline × Method))
    (ledger : Ledger) : Pipeline :=
  { rewrittenWith (selectionOf options program) (builtOf options program made) ledger with
    program := ⟨program.methods.map
      (outcome (made.map (·.1)) options.limits (selectionOf options program)) ++ made.map (·.2)⟩ }

theorem appended_eq_outlinedOf {made : List (Outline × Method)}
    (builds : Builds options program made) (ledger : Ledger) :
    { rewrittenWith (selectionOf options program) (builtOf options program made) ledger with
      program := (holderOf options made).methods.foldl Program.append
        (rewrittenWith (selectionOf options program) (builtOf options program made) ledger).program } =
      outlinedOf options program made ledger := by
  rw [holderOf, foldl_append]
  · rfl
  · simpa [rewrittenWith, builtOf, builtWith, recordedOf] using index_of_made builds

/-- What a run that returns a holder has done. -/
structure Outlined (options : Options) (program : Program) (made : List (Outline × Method))
    (final : Pipeline) : Prop where
  builds : Builds options program made
  some : made ≠ []
  replaceable : ∀ method ∈ chosen (selectionOf options program) program,
    ∀ hit ∈ hits (made.map (·.1)) (found options.limits method), Replaceable method hit
  struck : ((ledgerOf options program).strikeAll? (allStrikes (made.map (·.1)) options.limits
    (chosen (selectionOf options program) program))) = .some final.ledger
  outlines : final.outlines = made.map (·.1)
  methods : final.program.methods =
    program.methods.map (outcome (made.map (·.1)) options.limits (selectionOf options program)) ++
      made.map (·.2)

/-- Building a holder from what was recorded succeeds where the outlines can be made. -/
theorem run_build_recordedOf_eq_ok_iff (used : (ledgerOf options program).isEmpty = false) :
    (build options.holderType program.methods.length).run (recordedOf options program) =
        .ok holder final ↔
      ∃ made, Builds options program made ∧ holder = holderOf options made ∧
        final = builtOf options program made := by
  rw [run_build_eq_ok_iff _ _ rfl used]
  constructor
  · rintro ⟨outlines, known, rfl⟩
    obtain ⟨made, builds, rfl, rfl⟩ := build_templatesOf_eq_ok_iff.mp known
    exact ⟨made, builds, rfl, rfl⟩
  · rintro ⟨made, builds, rfl, rfl⟩
    exact ⟨_, build_templatesOf_eq_ok_iff.mpr ⟨made, builds, rfl, rfl⟩, rfl⟩

/-- A run in which no window breaks an assertion returns in one of three ways: there are no sites,
or no template has enough of them, or every window with an outline is replaced. -/
theorem run_eq_ok_iff (enabled : options.enabled = true) (sound : AllSound options program) :
    run.run (start options program) = .ok returned final ↔
      ((ledgerOf options program).isEmpty = true ∧ returned = none ∧
        final = recordedOf options program) ∨
      ((ledgerOf options program).isEmpty = false ∧ ∃ made, Builds options program made ∧
        ((made = [] ∧ returned = none ∧ final = builtOf options program made) ∨
        (made ≠ [] ∧ returned = some (holderOf options made) ∧ ∃ ledger,
          (ledgerOf options program).strikeAll? (allStrikes (made.map (·.1)) options.limits
            (chosen (selectionOf options program) program)) = some ledger ∧
          (∀ method ∈ chosen (selectionOf options program) program,
            ∀ hit ∈ hits (made.map (·.1)) (found options.limits method), Replaceable method hit) ∧
          final = outlinedOf options program made ledger ∧
          (options.verify = true → final.leftover? = none)))) := by
  rw [run_eq_finish enabled sound, run_finish_eq_ok_iff]
  refine or_congr Iff.rfl (and_congr_right fun used => ?_)
  constructor
  · rintro ⟨holder, built, building, ways⟩
    obtain ⟨made, builds, rfl, rfl⟩ := (run_build_recordedOf_eq_ok_iff used).mp building
    refine ⟨made, builds, ?_⟩
    rcases ways with ⟨empty, none, rfl⟩ | ⟨some, done, rewriting, same, rfl⟩
    · exact .inl ⟨List.map_eq_nil_iff.mp empty, none, rfl⟩
    · obtain ⟨ledger, struck, replaceable, rfl, complete⟩ :=
        (run_rewrite_eq_ok_iff rfl (by exact sound)).mp rewriting
      refine .inr ⟨fun empty => some (List.map_eq_nil_iff.mpr empty), same, ledger, struck,
        replaceable, appended_eq_outlinedOf builds ledger, complete⟩
  · rintro ⟨made, builds, ways⟩
    refine ⟨_, _, (run_build_recordedOf_eq_ok_iff used).mpr ⟨made, builds, rfl, rfl⟩, ?_⟩
    rcases ways with ⟨rfl, none, rfl⟩ | ⟨some, same, ledger, struck, replaceable, rfl, complete⟩
    · exact .inl ⟨rfl, none, rfl⟩
    · refine .inr ⟨fun empty => some (List.map_eq_nil_iff.mp empty), _,
        (run_rewrite_eq_ok_iff rfl (by exact sound)).mpr
          ⟨ledger, struck, replaceable, rfl, complete⟩, same, ?_⟩
      exact (appended_eq_outlinedOf builds ledger).symm

theorem outlined_of_run (sound : AllSound options program)
    (done : run.run (start options program) = .ok (some holder) final) :
    ∃ made, holder = holderOf options made ∧ Outlined options program made final := by
  cases enabled : options.enabled with
  | false =>
    rw [run_of_disabled enabled] at done
    cases done
  | true =>
    rcases (run_eq_ok_iff enabled sound).mp done with ⟨_, none, _⟩ | ⟨_, made, builds, ways⟩
    · cases none
    · rcases ways with ⟨_, none, _⟩ | ⟨some, same, ledger, struck, replaceable, rfl, _⟩
      · cases none
      cases same
      exact ⟨made, rfl, builds, some, replaceable, struck, rfl, rfl⟩

/-- A run that returns no holder leaves the program as it is. If outlining is switched on, no
template was to get an outline. -/
theorem unchanged_of_run (sound : AllSound options program)
    (done : run.run (start options program) = .ok none final) :
    final.program = program ∧ final.outlines = [] ∧
      (options.enabled = true → templatesOf options program = []) := by
  cases enabled : options.enabled with
  | false =>
    rw [run_of_disabled enabled] at done
    cases done
    exact ⟨rfl, rfl, nofun⟩
  | true =>
    rcases (run_eq_ok_iff enabled sound).mp done with ⟨unused, _, rfl⟩ | ⟨_, made, builds, ways⟩
    · exact ⟨rfl, rfl, fun _ => templatesOf_of_isEmpty unused⟩
    · rcases ways with ⟨rfl, _, rfl⟩ | ⟨_, some, _⟩
      · refine ⟨rfl, rfl, fun _ => ?_⟩
        exact List.length_eq_zero_iff.mp (Holder.made_of_outlines builds 0).2.symm
      · cases some

theorem allStrikes_eq (outlines : List Outline) (limits : Limits) (methods : List Method) :
    allStrikes outlines limits methods =
      (methods.flatMap (entriesOf limits)).filterMap fun entry =>
        (outlineFor? outlines entry.1).map fun outline => (outline.index, entry.2) := by
  rw [List.filterMap_flatMap]
  refine List.flatMap_congr fun method _ => ?_
  rw [strikes, hits, entriesOf, List.map_filterMap, List.filterMap_map]
  refine List.filterMap_congr fun candidate _ => ?_
  simp only [Function.comp_apply]
  cases outlineFor? outlines candidate.template <;> rfl

/-- Sites that are struck out in the order in which they were recorded are all found, and none is
left in the end. -/
theorem exists_strikeAll {outlines : List Outline} {pending : List (Template × Site)}
    {ledger : Ledger}
    (accounts : ∀ outline ∈ outlines,
      ledger.sites outline.index = sitesOf pending outline.template)
    (distinct : ∀ left ∈ outlines, ∀ right ∈ outlines,
      left.index = right.index ↔ left.template = right.template) :
    ∃ final, ledger.strikeAll? (pending.filterMap fun entry =>
        (outlineFor? outlines entry.1).map fun outline => (outline.index, entry.2)) = some final ∧
      ∀ outline ∈ outlines, final.sites outline.index = [] := by
  induction pending generalizing ledger with
  | nil => exact ⟨ledger, rfl, accounts⟩
  | cons entry pending inductionHypothesis =>
    obtain ⟨template, site⟩ := entry
    cases known : outlineFor? outlines template with
    | none =>
      rw [List.filterMap_cons_none (by rw [known]; rfl)]
      refine inductionHypothesis fun outline member => ?_
      have differs : template ≠ outline.template := by
        rintro rfl
        have absent := List.find?_eq_none.mp known outline member
        simp at absent
      rw [accounts outline member, sitesOf_cons_of_ne differs]
    | some outline =>
      have member : outline ∈ outlines := List.mem_of_find?_eq_some known
      obtain rfl : outline.template = template := by
        simpa using List.find?_some known
      have listed := accounts outline member
      rw [sitesOf_cons_of_eq] at listed
      obtain ⟨next, struck⟩ : ∃ next, ledger.strike? outline.index site = some next :=
        ⟨_, Ledger.strike?_eq_some_iff.mpr ⟨by simp [listed], rfl⟩⟩
      rw [List.filterMap_cons_some (by rw [known]; rfl), Ledger.strikeAll?, struck,
        Option.bind_some]
      refine inductionHypothesis fun other present => ?_
      rw [Ledger.sites_strike struck]
      by_cases same : other.index = outline.index
      · rw [if_pos same, listed, (distinct other present outline member).mp same]
        simp
      · have differs : outline.template ≠ other.template := fun templates =>
          same ((distinct other present outline member).mpr templates.symm)
        rw [if_neg same, accounts other present, sitesOf_cons_of_ne differs]

/-- The check in the end passes if no outline has sites left. -/
theorem leftover?_eq_none_iff : pipeline.leftover? = none ↔
    ∀ outline ∈ pipeline.outlines, pipeline.ledger.sites outline.index = [] := by
  unfold leftover?
  rw [List.findSome?_eq_none_iff]
  simp [Ledger.remaining]

end Outlining.Pipeline
