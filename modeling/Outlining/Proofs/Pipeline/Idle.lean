import Mathlib.Algebra.Order.BigOperators.Group.List
import Mathlib.Algebra.Order.Ring.Nat
import Outlining.Proofs.Pipeline.Selection

namespace Outlining.Pipeline

open Outlining.Bytecode Outlining.Window

variable {options : Options} {program result : Program} {final : Pipeline} {method : Method}
  {template : Template} {change : Method → Method} {added : List Method}

/-- Whether a run on a program succeeds, returns no holder, reports no changes and leaves the
program as it is. -/
def IsIdle (options : Options) (program : Program) : Prop :=
  ∃ final, run.run (start options program) = .ok none final ∧ final.program = program ∧
    final.statistics.hasChanges = false

theorem sitesRewritten_of_run (done : run.run (start options program) = .ok none final) :
    final.statistics.sitesRewritten = 0 := by
  cases enabled : options.enabled with
  | false =>
    rw [run_of_disabled enabled] at done
    cases done
    rfl
  | true =>
    have sound := allSound_of_run enabled done
    rcases (run_eq_ok_iff enabled sound).mp done with
      ⟨_, _, rfl⟩ | ⟨_, _, _, ⟨_, _, rfl⟩ | ⟨_, some, _⟩⟩
    · rfl
    · rfl
    · cases some

theorem exists_run_of_templatesOf (enabled : options.enabled = true)
    (sound : AllSound options program) (none : templatesOf options program = []) :
    ∃ final, run.run (start options program) = .ok .none final := by
  simp only [run_eq_ok_iff enabled sound]
  cases used : (ledgerOf options program).isEmpty with
  | true => exact ⟨_, .inl ⟨rfl, trivial, rfl⟩⟩
  | false =>
    have builds : Builds options program [] := by
      rw [Builds, none]
      rfl
    exact ⟨_, .inr ⟨rfl, [], builds, .inl ⟨rfl, trivial, rfl⟩⟩⟩

theorem isIdle_of_run (done : run.run (start options program) = .ok none final) :
    IsIdle options program := by
  refine ⟨final, done, ?_, by simp [Statistics.hasChanges, sitesRewritten_of_run done]⟩
  cases enabled : options.enabled with
  | false =>
    rw [run_of_disabled enabled] at done
    cases done
    rfl
  | true => exact (unchanged_of_run (allSound_of_run enabled done) done).1

/-- A run is idle exactly if outlining is switched off, or no window breaks an assertion and no
template is worthwhile. -/
theorem isIdle_iff (indexed : Indexed program) : IsIdle options program ↔
    (options.enabled = true →
      AllSound options program ∧ ∀ template, ¬ IsWorthwhile options program template) := by
  constructor
  · rintro ⟨final, done, _⟩ enabled
    have sound := allSound_of_run enabled done
    refine ⟨sound, fun template worthwhile => ?_⟩
    have listed := (mem_templatesOf_iff indexed).mpr worthwhile
    rw [(unchanged_of_run sound done).2.2 enabled] at listed
    cases listed
  · intro nothing
    cases enabled : options.enabled with
    | false => exact isIdle_of_run (run_of_disabled enabled)
    | true =>
      obtain ⟨sound, none⟩ := nothing enabled
      have empty : templatesOf options program = [] := by
        rw [List.eq_nil_iff_forall_not_mem]
        intro entry member
        exact none entry.2 ((mem_templatesOf_iff indexed).mp (List.mem_map_of_mem member))
      obtain ⟨final, done⟩ := exists_run_of_templatesOf enabled sound empty
      exact isIdle_of_run done

/-- Whether a program is another one with some methods changed and outlines added, where frequent
methods have lost the windows of worthwhile templates, and nothing else. -/
structure Depleted (options : Options) (program : Program) (change : Method → Method)
    (added : List Method) (result : Program) : Prop where
  methods : result.methods = program.methods.map change ++ added
  outlines : ∀ method ∈ added, method.synthetic = true
  synthetic : ∀ method, (change method).synthetic = method.synthetic
  others : ∀ method ∈ program.methods, method ∉ frequentMethods options program →
    change method = method
  frequent : ∀ method ∈ frequentMethods options program, ∃ rest : List Template,
    (templatesIn options.limits (change method)).Perm rest ∧
    rest.Sublist (templatesIn options.limits method) ∧
    ∀ template ∈ rest, ¬ IsWorthwhile options program template

namespace Depleted

variable (depleted : Depleted options program change added result)
include depleted

theorem plainMethods_eq : plainMethods result = (plainMethods program).map change := by
  have none : added.filter (!·.synthetic) = [] := by
    rw [List.filter_eq_nil_iff]
    intro method member
    simp [depleted.outlines method member]
  rw [plainMethods, depleted.methods, List.filter_append, none, List.append_nil, List.filter_map,
    plainMethods]
  simp only [Function.comp_def, depleted.synthetic]

theorem subperm (member : method ∈ plainMethods program) :
    (templatesIn options.limits (change method)).Subperm (templatesIn options.limits method) := by
  by_cases frequent : method ∈ frequentMethods options program
  · obtain ⟨rest, same, sublist, _⟩ := depleted.frequent method frequent
    exact ⟨rest, same.symm, sublist⟩
  · rw [depleted.others method (mem_plainMethods_iff.mp member).1 frequent]

theorem methodCount_le (template : Template) :
    methodCount options result template ≤ methodCount options program template := by
  rw [methodCount, depleted.plainMethods_eq, List.countP_map, methodCount]
  apply List.countP_mono_left
  intro method member known
  simp only [Function.comp_apply, List.contains_iff_mem] at known ⊢
  exact (depleted.subperm member).subset known

theorem frequentMethods_eq : ∃ methods : List Method,
    methods.Sublist (frequentMethods options program) ∧
      frequentMethods options result = methods.map change := by
  refine ⟨(frequentMethods options program).filter fun method =>
    (templatesIn options.limits (change method)).any fun template =>
      options.methodThreshold ≤ methodCount options result template, List.filter_sublist, ?_⟩
  rw [frequentMethods, depleted.plainMethods_eq, List.filter_map, frequentMethods,
    List.filter_filter]
  apply congrArg
  apply List.filter_congr
  intro method member
  rw [Function.comp_apply, Bool.eq_iff_iff, Bool.and_eq_true, iff_self_and]
  simp only [List.any_eq_true, decide_eq_true_eq]
  rintro ⟨template, known, frequent⟩
  exact ⟨template, (depleted.subperm member).subset known,
    Nat.le_trans frequent (depleted.methodCount_le template)⟩

theorem siteCount_le (template : Template) :
    siteCount options result template ≤ siteCount options program template := by
  obtain ⟨methods, sublist, same⟩ := depleted.frequentMethods_eq
  rw [siteCount, same, List.flatMap_map, siteCount, List.count_flatMap, List.count_flatMap]
  refine Nat.le_trans (List.sum_le_sum fun method member => ?_)
    ((sublist.map _).sum_le_sum fun _ _ => Nat.zero_le _)
  exact (depleted.subperm (List.mem_filter.mp (sublist.subset member)).1).count_le template

theorem not_isWorthwhile (template : Template) : ¬ IsWorthwhile options result template := by
  rintro ⟨some, enough⟩
  obtain ⟨methods, sublist, same⟩ := depleted.frequentMethods_eq
  have known := some
  rw [siteCount, same, List.flatMap_map] at known
  obtain ⟨method, member, known⟩ := List.mem_flatMap.mp (List.count_pos_iff.mp known)
  obtain ⟨rest, perm, _, spared⟩ := depleted.frequent method (sublist.subset member)
  have fewer := depleted.siteCount_le template
  exact spared template (perm.mem_iff.mp known)
    ⟨Nat.lt_of_lt_of_le some fewer, Nat.le_trans enough fewer⟩

end Depleted

end Outlining.Pipeline
