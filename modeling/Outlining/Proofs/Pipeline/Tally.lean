import Mathlib.Data.List.Dedup
import Outlining.Proofs.Pipeline.Selection

namespace Outlining.Pipeline

open Outlining.Bytecode Outlining.Window

variable {options : Options} {program : Program} {final : Pipeline} {returned : Option Holder}
  {made other : List (Outline × Method)}

section Counted

theorem size_censusOf (options : Options) (program : Program) :
    (censusOf options program).size =
      ((plainMethods program).flatMap (templatesIn options.limits)).dedup.length := by
  have accounts := accounts_censusOf options program
  rw [Census.size, ← List.length_map Prod.fst]
  refine ((List.perm_ext_iff_of_nodup accounts.distinct (List.nodup_dedup _)).mpr ?_).length_eq
  intro template
  rw [accounts.covers, List.mem_dedup]
  simp [notesIn]

variable (indexed : Indexed program)
include indexed

theorem length_selectionOf :
    (selectionOf options program).length = (frequentMethods options program).length := by
  have distinct : ((frequentMethods options program).map (·.index)).Nodup :=
    ((List.filter_sublist.trans List.filter_sublist).map _).nodup (nodup_indices indexed)
  have members (index : MethodIndex) : index ∈ selectionOf options program ↔
      index ∈ (frequentMethods options program).map (·.index) := by
    rw [mem_selectionOf_iff indexed, List.mem_map]
  rw [← List.length_map Method.index]
  exact ((List.perm_ext_iff_of_nodup (Census.nodup_select _ _) distinct).mpr members).length_eq

theorem length_sitesIn : (sitesIn options program).length =
    ((frequentMethods options program).flatMap (found options.limits)).length := by
  rw [sitesIn, chosen_selectionOf indexed]
  simp [List.length_flatMap, entriesOf]

theorem counted_eq : counted options program =
    { Statistics.zero with
      methodsScanned := (plainMethods program).length
      candidates := ((plainMethods program).flatMap (found options.limits)).length
      templates := ((plainMethods program).flatMap (templatesIn options.limits)).dedup.length
      methodsSelected := (frequentMethods options program).length
      sites := ((frequentMethods options program).flatMap (found options.limits)).length } := by
  rw [counted, size_censusOf, length_selectionOf indexed, length_sitesIn indexed]
  rfl

end Counted

/-- The statistics after a run for which these outlines were made. -/
def tallied (options : Options) (program : Program) (made : List (Outline × Method)) :
    Statistics :=
  (chosen (selectionOf options program) program).foldl (tally (made.map (·.1)) options.limits)
    { counted options program with outlines := made.length }

/-- What a run has left that made these outlines. -/
structure Finished (options : Options) (program : Program) (made : List (Outline × Method))
    (returned : Option Holder) (final : Pipeline) : Prop where
  builds : Builds options program made
  returned : returned = if made = [] then none else some (holderOf options made)
  methods : final.program.methods =
    program.methods.map (outcome (made.map (·.1)) options.limits (selectionOf options program)) ++
      made.map (·.2)
  statistics : final.statistics = tallied options program made

theorem Finished.getElem?_methods (finished : Finished options program made returned final)
    {place : Nat} {method : Method} (found : program.methods[place]? = some method) :
    final.program.methods[place]? = some
      (outcome (made.map (·.1)) options.limits (selectionOf options program) method) := by
  have inside := (List.getElem?_eq_some_iff.mp found).1
  rw [finished.methods, List.getElem?_append_left (by simpa using inside), List.getElem?_map, found]
  rfl

theorem Finished.drop_methods (finished : Finished options program made returned final) :
    final.program.methods.drop program.methods.length = made.map (·.2) := by
  rw [finished.methods, List.drop_left' (List.length_map _)]

theorem finished_of_none (builds : Builds options program []) (kept : final.program = program)
    (counts : final.statistics = counted options program) :
    Finished options program [] none final where
  builds := builds
  returned := rfl
  methods := by simp [kept, outcome_nil]
  statistics := by
    rw [tallied, List.map_nil, foldl_tally_nil]
    exact counts

/-- A run that returns has made the outlines of the templates selected, and counts all it did. -/
theorem finished_of_run (enabled : options.enabled = true)
    (done : run.run (start options program) = .ok returned final) :
    ∃ made, Finished options program made returned final := by
  rcases (run_eq_ok_iff enabled (allSound_of_run enabled done)).mp done with
    ⟨unused, rfl, rfl⟩ | ⟨_, made, builds, ways⟩
  · refine ⟨[], finished_of_none ?_ rfl rfl⟩
    rw [Builds, templatesOf_of_isEmpty unused]
    rfl
  · rcases ways with ⟨rfl, rfl, rfl⟩ | ⟨some, rfl, ledger, _, _, rfl, _⟩
    · exact ⟨[], finished_of_none builds rfl rfl⟩
    · refine ⟨made, builds, (if_neg some).symm, rfl, ?_⟩
      simp [tallied, outlinedOf, rewrittenWith, builtOf, builtWith, holderOf, recordedOf]

/-- The templates selected decide which outlines are made. -/
theorem made_unique (builds : Builds options program made) (again : Builds options program other) :
    made = other := Except.ok.inj (builds.symm.trans again)

end Outlining.Pipeline
