import Outlining.Proofs.Pipeline.Faultless
import Outlining.Proofs.Pipeline.Outcome
import Outlining.Proofs.Pipeline.Refusal
import Outlining.Proofs.Pipeline.Selection
import Outlining.Proofs.Pipeline.Striking

/-! The second pass records the sites of some methods, and the last one strikes out those of some
methods. Whatever the two sets of methods are, a site is missing or left over exactly where a method
with a window that has an outline is in one of them only. -/
namespace Outlining.Pipeline

open Outlining.Bytecode Outlining.Window

variable {options : Options} {program : Program} {pipeline final : Pipeline} {method : Method}
  {limits : Limits} {selection : List MethodIndex} {outlines : List Outline}

section Counting

theorem count_sitesOf (entries : List (Template × Site)) (template : Template) (site : Site) :
    (sitesOf entries template).count site = entries.count (template, site) := by
  rw [sitesOf, List.count, List.countP_map, List.countP_filter, List.count]
  apply List.countP_congr
  intro entry _
  simp [Prod.ext_iff, and_comm]

/-- A site is recorded if its method is selected, as often as its window is found. -/
theorem count_entries (limits : Limits) (selection : List MethodIndex) (methods : List Method)
    (template : Template) (site : Site) :
    ((methods.filter fun method => selection.contains method.index).flatMap
        (entriesOf limits)).count (template, site) =
      if site.method ∈ selection then (methods.flatMap (entriesOf limits)).count (template, site)
      else 0 := by
  induction methods with
  | nil => simp
  | cons method methods inductionHypothesis =>
    have here : site.method ≠ method.index →
        (entriesOf limits method).count (template, site) = 0 := by
      intro differs
      apply List.count_eq_zero_of_not_mem
      intro member
      obtain ⟨candidate, _, same⟩ := List.mem_map.mp member
      cases same
      exact differs rfl
    rw [List.flatMap_cons, List.count_append]
    by_cases picked : method.index ∈ selection
    · rw [List.filter_cons_of_pos (by simpa using picked), List.flatMap_cons, List.count_append,
        inductionHypothesis]
      by_cases among : site.method ∈ selection
      · simp only [if_pos among]
      · have differs : site.method ≠ method.index := by
          intro same
          exact among (same ▸ picked)
        rw [here differs, if_neg among, if_neg among]
    · rw [List.filter_cons_of_neg (by simpa using picked), inductionHypothesis]
      by_cases among : site.method ∈ selection
      · have differs : site.method ≠ method.index := by
          intro same
          exact picked (same ▸ among)
        rw [here differs, Nat.zero_add]
      · rw [if_neg among, if_neg among]

theorem chosen_eq (selection : List MethodIndex) (program : Program) :
    chosen selection program =
      (plainMethods program).filter fun method => selection.contains method.index := by
  rw [chosen, plainMethods, List.filter_filter]
  apply List.filter_congr
  intro method _
  rw [isChosen, Bool.and_comm]

theorem count_allStrikes (limits : Limits) (methods : List Method)
    (distinct : ∀ left ∈ outlines, ∀ right ∈ outlines,
      left.index = right.index ↔ left.template = right.template)
    {outline : Outline} (member : outline ∈ outlines) (site : Site) :
    (allStrikes outlines limits methods).count (outline.index, site) =
      (methods.flatMap (entriesOf limits)).count (outline.template, site) := by
  rw [allStrikes_eq, List.count, List.countP_filterMap, List.count]
  apply List.countP_congr
  intro entry _
  cases known : outlineFor? outlines entry.1 with
  | none =>
    have differs : entry.1 ≠ outline.template := by
      intro same
      have absent := List.find?_eq_none.mp known outline member
      simp [same] at absent
    simp [Prod.ext_iff, differs]
  | some other =>
    have present : other ∈ outlines := List.mem_of_find?_eq_some known
    have same : other.template = entry.1 := by simpa using List.find?_some known
    simp [Prod.ext_iff, distinct other present outline member, same]

theorem exists_outline_of_strike {methods : List Method} {index : TemplateIndex} {site : Site}
    (member : (index, site) ∈ allStrikes outlines limits methods) :
    ∃ outline ∈ outlines, outline.index = index := by
  obtain ⟨method, _, struck⟩ := List.mem_flatMap.mp member
  obtain ⟨hit, listed, same⟩ := List.mem_map.mp struck
  obtain ⟨candidate, _, paired⟩ := List.mem_filterMap.mp listed
  obtain ⟨outline, known, rfl⟩ := Option.map_eq_some_iff.mp paired
  cases same
  exact ⟨outline, List.mem_of_find?_eq_some known, rfl⟩

end Counting

/-- A method that may be changed and has a window with an outline. -/
def IsHot (pipeline : Pipeline) (method : Method) : Prop :=
  method ∈ plainMethods pipeline.program ∧
    ∃ candidate, .ok candidate ∈ method.scan pipeline.options.limits ∧
      ∃ outline ∈ pipeline.outlines, outline.template = candidate.template

/-- Whether a method with a window that has an outline is in the first set but not in the second. -/
def IsBeyond (pipeline : Pipeline) (first second : List MethodIndex) : Prop :=
  ∃ method, IsHot pipeline method ∧ method.index ∈ first ∧ method.index ∉ second

/-- How often a window with a template is found at a site, in the methods that may be changed. -/
def timesFound (pipeline : Pipeline) (template : Template) (site : Site) : Nat :=
  ((plainMethods pipeline.program).flatMap (entriesOf pipeline.options.limits)).count
    (template, site)

theorem isBeyond_iff {first second : List MethodIndex} : IsBeyond pipeline first second ↔
    ∃ outline ∈ pipeline.outlines, ∃ site, 0 < timesFound pipeline outline.template site ∧
      site.method ∈ first ∧ site.method ∉ second := by
  constructor
  · rintro ⟨method, ⟨plain, candidate, listed, outline, member, same⟩, inside, outside⟩
    refine ⟨outline, member, siteOf method.index candidate, ?_, inside, outside⟩
    apply List.count_pos_iff.mpr
    apply List.mem_flatMap.mpr
    refine ⟨method, plain, ?_⟩
    rw [same]
    exact List.mem_map_of_mem (mem_found_iff.mpr listed)
  · rintro ⟨outline, member, site, some, inside, outside⟩
    obtain ⟨method, plain, entry⟩ := List.mem_flatMap.mp (List.count_pos_iff.mp some)
    obtain ⟨candidate, listed, same⟩ := List.mem_map.mp entry
    obtain ⟨templates, rfl⟩ := Prod.ext_iff.mp same
    exact ⟨method, ⟨plain, candidate, mem_found_iff.mp listed, outline, member, templates.symm⟩,
      inside, outside⟩

/-- A pipeline in which the sites of the given methods are recorded, and outlines are made for some
of their templates. -/
structure Recorded (recorded : List MethodIndex) (pipeline : Pipeline) : Prop where
  phase : pipeline.phase = .built
  sound : ∀ method ∈ pipeline.program.methods, method.synthetic = false →
    Sound pipeline.options.limits method
  replaceable : ∀ method ∈ pipeline.program.methods,
    ∀ hit ∈ hits pipeline.outlines (found pipeline.options.limits method), Replaceable method hit
  distinct : ∀ left ∈ pipeline.outlines, ∀ right ∈ pipeline.outlines,
    left.index = right.index ↔ left.template = right.template
  ledger : ∀ outline ∈ pipeline.outlines, pipeline.ledger.sites outline.index = sitesOf
    ((chosen recorded pipeline.program).flatMap (entriesOf pipeline.options.limits))
    outline.template
  total : pipeline.statistics.sites = pipeline.statistics.sitesRewritten + pipeline.ledger.total

namespace Recorded

variable {recorded : List MethodIndex} {outline : Outline} {next : Ledger}
  (known : Recorded recorded pipeline)
include known

theorem count_sites (member : outline ∈ pipeline.outlines) (site : Site) :
    (pipeline.ledger.sites outline.index).count site =
      if site.method ∈ recorded then timesFound pipeline outline.template site else 0 := by
  rw [known.ledger outline member, count_sitesOf, chosen_eq, count_entries, timesFound]

/-- A site is struck out as often as it is found, if its method is rewritten. -/
theorem count_strikes (selection : List MethodIndex) (member : outline ∈ pipeline.outlines)
    (site : Site) :
    (allStrikes pipeline.outlines pipeline.options.limits
        (chosen selection pipeline.program)).count (outline.index, site) =
      if site.method ∈ selection then timesFound pipeline outline.template site else 0 := by
  rw [count_allStrikes _ _ known.distinct member, chosen_eq, count_entries, timesFound]

theorem exists_strikeAll_iff : (∃ next, pipeline.ledger.strikeAll?
      (allStrikes pipeline.outlines pipeline.options.limits
        (chosen selection pipeline.program)) = some next) ↔
    ¬ IsBeyond pipeline selection recorded := by
  rw [Ledger.exists_strikeAll_iff, isBeyond_iff]
  constructor
  · rintro enough ⟨outline, member, site, some, rewritten, missing⟩
    have least := enough outline.index site
    rw [known.count_sites member, known.count_strikes selection member, if_pos rewritten,
      if_neg missing] at least
    omega
  · intro within index site
    by_cases struck : (index, site) ∈ allStrikes pipeline.outlines pipeline.options.limits
        (chosen selection pipeline.program)
    · obtain ⟨outline, member, rfl⟩ := exists_outline_of_strike struck
      rw [known.count_sites member, known.count_strikes selection member]
      by_cases there : site.method ∈ recorded
      · rw [if_pos there]
        split <;> omega
      · rw [if_neg there, Nat.le_zero]
        by_contra some
        by_cases rewritten : site.method ∈ selection
        · rw [if_pos rewritten] at some
          exact within ⟨outline, member, site, Nat.pos_of_ne_zero some, rewritten, there⟩
        · exact some (if_neg rewritten)
    · rw [List.count_eq_zero_of_not_mem struck]
      exact Nat.zero_le _

theorem sites_eq_nil_iff (struck : pipeline.ledger.strikeAll?
      (allStrikes pipeline.outlines pipeline.options.limits
        (chosen selection pipeline.program)) = some next) :
    (∀ outline ∈ pipeline.outlines, next.sites outline.index = []) ↔
      ¬ IsBeyond pipeline recorded selection := by
  have within := known.exists_strikeAll_iff.mp ⟨next, struck⟩
  rw [isBeyond_iff] at within ⊢
  constructor
  · rintro none ⟨outline, member, site, some, there, spared⟩
    have counted := Ledger.count_sites_strikeAll struck outline.index site
    rw [known.count_sites member, known.count_strikes selection member, if_pos there,
      if_neg spared, none outline member, List.count_nil] at counted
    omega
  · intro covered outline member
    apply List.eq_nil_iff_forall_not_mem.mpr
    intro site left
    have some := List.count_pos_iff.mpr left
    have counted := Ledger.count_sites_strikeAll struck outline.index site
    rw [known.count_sites member, known.count_strikes selection member] at counted
    by_cases there : site.method ∈ recorded
    · by_cases rewritten : site.method ∈ selection
      · rw [if_pos there, if_pos rewritten] at counted
        omega
      · rw [if_pos there, if_neg rewritten] at counted
        exact covered ⟨outline, member, site, by omega, there, rewritten⟩
    · rw [if_neg there] at counted
      omega

/-- The rewriting of all methods succeeds if each of those with a hit was recorded. -/
theorem run_rewriteAll_of_within (within : ¬ IsBeyond pipeline selection recorded) :
    ∃ next, pipeline.ledger.strikeAll? (allStrikes pipeline.outlines pipeline.options.limits
        (chosen selection pipeline.program)) = some next ∧
      (rewriteAll selection pipeline.program.methods.zipIdx).run
        { pipeline with phase := .rewritten } =
          .ok ⟨⟩ (rewrittenWith selection pipeline next) := by
  obtain ⟨next, struck⟩ := known.exists_strikeAll_iff.mpr within
  have looped := @run_rewriteAll_zipIdx_eq_ok_iff { pipeline with phase := .rewritten }
    (rewrittenWith selection pipeline next) selection known.sound
  refine ⟨next, struck, looped.mpr ⟨next, struck, ?_, rfl⟩⟩
  intro method member
  exact known.replaceable method (List.mem_filter.mp member).1

/-- The rewriting of all methods meets a missing site if one of those with a hit was not
recorded. -/
theorem run_rewriteAll_of_beyond (beyond : IsBeyond pipeline selection recorded) :
    ∃ fault final, fault.IsMissing ∧
      (rewriteAll selection pipeline.program.methods.zipIdx).run
        { pipeline with phase := .rewritten } = .error fault final := by
  cases looped : (rewriteAll selection pipeline.program.methods.zipIdx).run
      { pipeline with phase := .rewritten } with
  | ok _ final =>
    have succeeded := @run_rewriteAll_zipIdx_eq_ok_iff { pipeline with phase := .rewritten }
      final selection known.sound
    obtain ⟨next, struck, _⟩ := succeeded.mp looped
    exact absurd beyond (known.exists_strikeAll_iff.mp ⟨next, struck⟩)
  | error fault final =>
    have listed : ∀ item ∈ pipeline.program.methods.zipIdx, item.1 ∈ pipeline.program.methods := by
      intro item member
      rw [← List.zipIdx_map_fst 0 pipeline.program.methods]
      exact List.mem_map_of_mem member
    refine ⟨fault, final, isMissing_of_rewriteAll ?_ ?_ looped, rfl⟩
    · exact fun item member => known.sound item.1 (listed item member)
    · exact fun item member => known.replaceable item.1 (listed item member)

theorem leftover?_rewrittenWith (struck : pipeline.ledger.strikeAll?
      (allStrikes pipeline.outlines pipeline.options.limits
        (chosen selection pipeline.program)) = some next) :
    (rewrittenWith selection pipeline next).leftover? = none ↔
      ¬ IsBeyond pipeline recorded selection := by
  rw [leftover?_eq_none_iff]
  exact known.sites_eq_nil_iff struck

end Recorded

theorem sites_foldl_tally (outlines : List Outline) (limits : Limits) (methods : List Method)
    (statistics : Statistics) :
    (methods.foldl (tally outlines limits) statistics).sites = statistics.sites ∧
      (methods.foldl (tally outlines limits) statistics).sitesRewritten =
        statistics.sitesRewritten + (allStrikes outlines limits methods).length := by
  induction methods generalizing statistics with
  | nil => exact ⟨rfl, rfl⟩
  | cons method methods inductionHypothesis =>
    obtain ⟨sites, rewritten⟩ := inductionHypothesis (tally outlines limits statistics method)
    refine ⟨sites, rewritten.trans ?_⟩
    simp [tally, allStrikes, strikes, editsFor, Nat.add_assoc]

/-- How rewriting ends if the sites of other methods were recorded. -/
structure Balanced (recorded rewritten : List MethodIndex) (pipeline : Pipeline) : Prop where
  missing : (∃ fault final, (rewrite rewritten).run pipeline = .error fault final ∧
      fault.IsMissing) ↔ IsBeyond pipeline rewritten recorded
  leftover : ¬ IsBeyond pipeline rewritten recorded →
    ((∃ fault final, (rewrite rewritten).run pipeline = .error fault final ∧ fault.IsLeftover) ↔
      pipeline.options.verify = true ∧ IsBeyond pipeline recorded rewritten)
  succeeds : ¬ IsBeyond pipeline rewritten recorded →
    ¬ (pipeline.options.verify = true ∧ IsBeyond pipeline recorded rewritten) →
      ∃ final, (rewrite rewritten).run pipeline = .ok ⟨⟩ final
  settled : (∀ method, IsHot pipeline method →
      (method.index ∈ recorded ↔ method.index ∈ rewritten)) →
    ∃ final, (rewrite rewritten).run pipeline = .ok ⟨⟩ final ∧
      final.outlines = pipeline.outlines ∧
      (∀ outline ∈ final.outlines, final.ledger.remaining outline.index = 0) ∧
      final.statistics.sites = pipeline.statistics.sites ∧
      final.statistics.sites = final.statistics.sitesRewritten + final.ledger.total

namespace Recorded

variable {recorded rewritten : List MethodIndex} {next : Ledger}
  (known : Recorded recorded pipeline)
include known

theorem run_of_beyond (beyond : IsBeyond pipeline rewritten recorded) :
    ∃ fault final, (rewrite rewritten).run pipeline = .error fault final ∧ fault.IsMissing := by
  obtain ⟨fault, final, missing, looped⟩ := known.run_rewriteAll_of_beyond beyond
  exact ⟨fault, final, (run_rewrite_eq_error_iff known.phase).mpr (.inl looped), missing⟩

theorem run_of_leftover (within : ¬ IsBeyond pipeline rewritten recorded)
    (verify : pipeline.options.verify = true) (beyond : IsBeyond pipeline recorded rewritten) :
    ∃ fault final, (rewrite rewritten).run pipeline = .error fault final ∧ fault.IsLeftover := by
  obtain ⟨next, struck, looped⟩ := known.run_rewriteAll_of_within within
  cases left : (rewrittenWith rewritten pipeline next).leftover? with
  | none => exact absurd beyond ((known.leftover?_rewrittenWith struck).mp left)
  | some found =>
    refine ⟨.sitesRemaining found.1.reference found.2, rewrittenWith rewritten pipeline next, ?_,
      ⟨_, _, rfl⟩⟩
    apply (run_rewrite_eq_error_iff known.phase).mpr
    exact .inr ⟨_, looped, verify, run_check_eq_error_iff.mpr ⟨_, _, left, rfl, rfl⟩⟩

theorem run_of_settled (within : ¬ IsBeyond pipeline rewritten recorded)
    (checked : ¬ (pipeline.options.verify = true ∧ IsBeyond pipeline recorded rewritten)) :
    ∃ next, pipeline.ledger.strikeAll? (allStrikes pipeline.outlines pipeline.options.limits
        (chosen rewritten pipeline.program)) = some next ∧
      (rewrite rewritten).run pipeline = .ok ⟨⟩ (rewrittenWith rewritten pipeline next) := by
  obtain ⟨next, struck⟩ := known.exists_strikeAll_iff.mpr within
  refine ⟨next, struck, (run_rewrite_eq_ok_iff known.phase known.sound).mpr
    ⟨next, struck, ?_, rfl, ?_⟩⟩
  · intro method member
    exact known.replaceable method (List.mem_filter.mp member).1
  · intro verify
    apply (known.leftover?_rewrittenWith struck).mpr
    exact fun beyond => checked ⟨verify, beyond⟩

theorem total_rewrittenWith (struck : pipeline.ledger.strikeAll?
      (allStrikes pipeline.outlines pipeline.options.limits
        (chosen rewritten pipeline.program)) = some next) :
    (rewrittenWith rewritten pipeline next).statistics.sites = pipeline.statistics.sites ∧
    (rewrittenWith rewritten pipeline next).statistics.sites =
      (rewrittenWith rewritten pipeline next).statistics.sitesRewritten + next.total := by
  obtain ⟨sites, count⟩ := sites_foldl_tally pipeline.outlines pipeline.options.limits
    (chosen rewritten pipeline.program) pipeline.statistics
  refine ⟨sites, ?_⟩
  have whole := known.total
  have left := Ledger.total_strikeAll struck
  rw [rewrittenWith, sites, count]
  omega

theorem balanced : Balanced recorded rewritten pipeline where
  missing := by
    constructor
    · rintro ⟨fault, final, failed, missing⟩
      by_contra within
      by_cases checked : pipeline.options.verify = true ∧ IsBeyond pipeline recorded rewritten
      · obtain ⟨other, last, otherwise, left⟩ := known.run_of_leftover within checked.1 checked.2
        rw [otherwise] at failed
        cases failed
        exact left.not_isMissing missing
      · obtain ⟨next, _, done⟩ := known.run_of_settled within checked
        rw [done] at failed
        cases failed
    · exact known.run_of_beyond
  leftover := by
    intro within
    constructor
    · rintro ⟨fault, final, failed, _⟩
      by_contra checked
      obtain ⟨next, _, done⟩ := known.run_of_settled within checked
      rw [done] at failed
      cases failed
    · rintro ⟨verify, beyond⟩
      exact known.run_of_leftover within verify beyond
  succeeds := by
    intro within checked
    obtain ⟨next, _, done⟩ := known.run_of_settled within checked
    exact ⟨_, done⟩
  settled := by
    intro same
    have within : ¬ IsBeyond pipeline rewritten recorded := by
      rintro ⟨method, hot, inside, outside⟩
      exact outside ((same method hot).mpr inside)
    have covered : ¬ IsBeyond pipeline recorded rewritten := by
      rintro ⟨method, hot, inside, outside⟩
      exact outside ((same method hot).mp inside)
    obtain ⟨next, struck, done⟩ := known.run_of_settled within fun checked => covered checked.2
    obtain ⟨sites, total⟩ := known.total_rewrittenWith struck
    refine ⟨_, done, rfl, ?_, sites, total⟩
    intro outline member
    exact congrArg List.length ((known.sites_eq_nil_iff struck).mpr covered outline member)

end Recorded

/-- The steps up to the holder, of which the first two may look at another program. -/
def prepare (program : Program) (selection : List MethodIndex) (type : Descriptor)
    (first : MethodIndex) : Pass Holder := do
  survey
  let _ ← select
  modify fun pipeline => { pipeline with program := program }
  record selection
  build type first

theorem recorded_of_prepare {source : Program} {type : Descriptor} {first : MethodIndex}
    {holder : Holder} (valid : program.complaint? = none)
    (bare : ∀ method ∈ program.methods, AllocatesBare method)
    (done : (prepare program selection type first).run (start options source) =
      .ok holder pipeline) : Recorded selection pipeline := by
  unfold prepare at done
  simp only [run_bind_eq_ok_iff] at done
  obtain ⟨_, surveyed, surveying, _, selected, selecting, _, _, changing, _, recorded, recording,
    building⟩ := done
  have framed := (of_run_select selecting).trans
    (congrArg (fun apart => ((apart.1.1, apart.1.2.1, Phase.selected, apart.1.2.2.2), apart.2))
      (of_run_survey surveying).2)
  simp only [apart, frame, start, Prod.mk.injEq] at framed
  obtain ⟨⟨_, _, ready, ledger, _⟩, sites, rewritten⟩ := framed
  cases changing
  have recorded := @run_record { selected with program := program } selection ready
    fun method member _ => (bare method member).sound selected.options.limits
  rw [recorded] at recording
  cases recording
  have accounts := Ledger.accounts_recordAll
    ((chosen selection program).flatMap (entriesOf selected.options.limits))
  obtain ⟨_, _, outlines, known, rfl⟩ := of_run_build building
  obtain ⟨_, made, built, rfl, rfl⟩ := Holder.build_eq_ok_iff.mp known
  dsimp only at built
  rw [ledger] at built
  obtain ⟨same, distinct⟩ := accounts_of_outlines accounts built
  refine ⟨rfl, fun method member _ => (bare method member).sound _, ?_, distinct, ?_, ?_⟩
  · intro method member hit present
    exact replaceable_of_hit (labelled_of_valid (valid_of_mem valid member)) built present
  · intro outline member
    simp only [builtWith, ledger]
    exact same outline member
  · have none : Ledger.empty.total = 0 := rfl
    simp only [builtWith, ledger, sites, rewritten, Ledger.total_recordAll, none]
    simp [List.length_flatMap, entriesOf, Statistics.zero]

/-- Sites recorded and sites rewritten balance, whatever the two sets of methods are: rewriting
fails at a missing site exactly if it comes to a method with an outlined window that was not
recorded; otherwise its check fails exactly if it leaves out such a method that was recorded; and
otherwise it succeeds. If the two sets have the same of these methods no site is left, and every
site recorded was rewritten or has no outline. A body that refines one value again and again may
have a count of reads outgrow 32 bits. It does not if the square of the number of operands fits, or
if the body is in single assignment form and the number fits: so it is for the methods to be
rewritten, and none of the counts made in them is too large. -/
theorem rewriting_balances_recording {options : Options} {source program : Program}
    {recorded rewritten : List MethodIndex} {type : Descriptor} {first : MethodIndex}
    {holder : Holder} {built : Pipeline} (valid : program.complaint? = none)
    (bare : ∀ method ∈ program.methods, AllocatesBare method)
    (small : ∀ method ∈ chosen rewritten program, method.reads.length ^ 2 < 2 ^ 32 ∨
      method.SingleAssignment ∧ method.reads.length < 2 ^ 32)
    (done : (prepare program recorded type first).run (start options source) =
      .ok holder built) :
    Balanced recorded rewritten built ∧
      ∀ method ∈ chosen rewritten program, CountsFit options.limits method := by
  refine ⟨(recorded_of_prepare valid bare done).balanced, fun method member => ?_⟩
  rcases small method member with square | ⟨assigned, few⟩
  · exact countsFit_of_small square options.limits
  · have inside := (List.mem_filter.mp member).1
    exact countsFit_of_assigned (valid_of_mem valid inside) assigned few options.limits

theorem exists_prepare_refinesSum : ∃ holder built,
    (prepare ⟨[refinesSum]⟩ [0] Descriptor.object 1).run (start eager ⟨[]⟩) = .ok holder built ∧
      Balanced [0] [0] built := by
  have returns : succeeds (fun _ _ => true) ((prepare ⟨[refinesSum]⟩ [0] Descriptor.object 1).run
      (start eager ⟨[]⟩)) = true := by decide +kernel
  obtain ⟨holder, built, done, _⟩ := exists_of_succeeds returns
  refine ⟨holder, built, done, (rewriting_balances_recording (by decide) ?_ ?_ done).1⟩
  · simp [AllocatesBare, refinesSum, Method.instructions]
  · intro method member
    obtain rfl := List.mem_singleton.mp (List.mem_filter.mp member).1
    exact .inl (by decide)

end Outlining.Pipeline
