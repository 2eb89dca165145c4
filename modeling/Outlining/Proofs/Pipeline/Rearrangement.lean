import Mathlib.Data.List.Sort
import Outlining.Proofs.Bytecode.Shuffle
import Outlining.Proofs.Pipeline.Determination
import Outlining.Proofs.Pipeline.Tally
import Outlining.Proofs.Window.Coincidence

/-! The places of the methods enter the census, the sites and the numbers of the templates, but none
of these is left in the result: methods and templates are selected by counts, and templates are put
into their own order before anything is named. So a program in another order gets the same holder
and the same methods, and the run counts the same. -/
namespace Outlining

open Outlining.Bytecode Outlining.Rewriting Outlining.Window

/-- A scan does not look at the place of the method. -/
theorem Bytecode.Method.scan_moved (method : Method) (index : MethodIndex) (limits : Limits) :
    (method.moved index).scan limits = method.scan limits := by
  have coincide (block : Block) : Coincide (.ofMethod method limits)
      (.ofMethod (method.moved index) limits) block.instructions :=
    ⟨⟨rfl, rfl⟩, fun _ => rfl, fun _ _ _ _ => rfl⟩
  exact List.flatMap_congr fun block _ => (coincide block).scanAhead block.label 0 0

namespace Pipeline

variable {options : Options} {program other : Program} {made remade : List (Outline × Method)}

section Placeless

variable (limits : Limits) (outlines : List Outline)

theorem found_moved : Placeless (found limits) := by
  intro method index
  rw [found, found, method.scan_moved]

theorem templatesIn_moved : Placeless (templatesIn limits) := by
  intro method index
  rw [templatesIn, templatesIn, found_moved]

theorem editsFor_moved : Placeless (editsFor outlines limits) := by
  intro method index
  rw [editsFor, editsFor, found_moved]
  rfl

theorem rewritten_moved (method : Method) (index : MethodIndex) :
    rewritten outlines limits (method.moved index) =
      (rewritten outlines limits method).moved index := by
  rw [rewritten, rewritten, editsFor_moved]
  split
  · rfl
  · rfl

theorem tally_moved (statistics : Statistics) : Placeless (tally outlines limits statistics) := by
  intro method index
  rw [tally, tally, editsFor_moved]
  rfl

theorem tally_comm (statistics : Statistics) (first second : Method) :
    tally outlines limits (tally outlines limits statistics first) second =
      tally outlines limits (tally outlines limits statistics second) first := by
  simp only [tally, Nat.add_right_comm]

end Placeless

section Shuffled

variable (shuffled : Shuffled other.methods program.methods)
include shuffled

theorem shuffled_plainMethods : Shuffled (plainMethods other) (plainMethods program) :=
  shuffled.filter fun _ _ => rfl

theorem methodCount_eq : methodCount options other = methodCount options program := by
  funext template
  refine (shuffled_plainMethods shuffled).countP_eq fun method index => ?_
  rw [templatesIn_moved]

theorem shuffled_frequentMethods :
    Shuffled (frequentMethods options other) (frequentMethods options program) := by
  rw [frequentMethods, methodCount_eq shuffled]
  refine (shuffled_plainMethods shuffled).filter fun method index => ?_
  rw [templatesIn_moved]

theorem isWorthwhile_iff {template : Template} :
    IsWorthwhile options other template ↔ IsWorthwhile options program template := by
  have count : siteCount options other template = siteCount options program template :=
    ((shuffled_frequentMethods shuffled).flatMap (templatesIn_moved _)).count_eq template
  rw [IsWorthwhile, IsWorthwhile, count]

variable (reindexed : Indexed other) (indexed : Indexed program)
include reindexed indexed

theorem templateList_eq : templateList options other = templateList options program := by
  refine Template.eq_of_mem_iff (pairwise_templatesOf options other)
    (pairwise_templatesOf options program) fun template => ?_
  exact (mem_templatesOf_iff reindexed).trans
    ((isWorthwhile_iff shuffled).trans (mem_templatesOf_iff indexed).symm)

theorem counted_shuffled : counted options other = counted options program := by
  have plain := shuffled_plainMethods shuffled
  have frequent : Shuffled (frequentMethods options other) (frequentMethods options program) :=
    shuffled_frequentMethods shuffled
  rw [counted_eq reindexed, counted_eq indexed, plain.length_eq, frequent.length_eq,
    (plain.flatMap (found_moved _)).length_eq, (frequent.flatMap (found_moved _)).length_eq,
    (plain.flatMap (templatesIn_moved _)).dedup.length_eq]

theorem exists_rebuilds (builds : Builds options program made) :
    ∃ remade, Builds options other remade ∧ remade.map (·.2) = made.map (·.2) := by
  unfold Builds
  rw [shuffled.length_eq]
  exact Holder.outlines_congr (templateList_eq shuffled reindexed indexed) builds

variable (builds : Builds options program made) (rebuilds : Builds options other remade)
include builds rebuilds

theorem editsFor_eq (limits : Limits) :
    editsFor (remade.map (·.1)) limits = editsFor (made.map (·.1)) limits := by
  funext method
  rw [editsFor_of_builds rebuilds, editsFor_of_builds builds,
    templateList_eq shuffled reindexed indexed]

/-- A method selected in one order is selected in the other, and rewritten in the same way. -/
theorem outcome_moved {method : Method} {index : MethodIndex} (member : method ∈ program.methods)
    (present : method.moved index ∈ other.methods) :
    outcome (remade.map (·.1)) options.limits (selectionOf options other) (method.moved index) =
      (outcome (made.map (·.1)) options.limits (selectionOf options program) method).moved
        index := by
  have picked : isChosen (selectionOf options other) (method.moved index) =
      isChosen (selectionOf options program) method := by
    rw [Bool.eq_iff_iff, isChosen_selectionOf_iff reindexed present,
      isChosen_selectionOf_iff indexed member, frequentMethods, frequentMethods, List.mem_filter,
      List.mem_filter, mem_plainMethods_iff, mem_plainMethods_iff, templatesIn_moved,
      methodCount_eq shuffled]
    simp only [member, present, true_and]
    rfl
  have same : rewritten (remade.map (·.1)) options.limits method =
      rewritten (made.map (·.1)) options.limits method := by
    rw [rewritten, rewritten, editsFor_eq shuffled reindexed indexed builds rebuilds]
  rw [outcome, outcome, picked, rewritten_moved, same]
  split
  · rfl
  · rfl

theorem tallied_eq (same : remade.length = made.length) :
    tallied options other remade = tallied options program made := by
  have steps : tally (remade.map (·.1)) options.limits = tally (made.map (·.1)) options.limits := by
    funext statistics method
    rw [tally, tally, editsFor_eq shuffled reindexed indexed builds rebuilds]
  rw [tallied, tallied, chosen_selectionOf reindexed, chosen_selectionOf indexed, steps, same,
    counted_shuffled shuffled reindexed indexed]
  exact (shuffled_frequentMethods shuffled).foldl_eq (tally_moved _ _) (tally_comm _ _) _

end Shuffled

/-- Whether a pipeline has counted the same as another one, and has the same methods in another
order, and the same methods after them. -/
structure Reordered (program : Program) (order : Equiv.Perm (Fin program.methods.length))
    (final other : Pipeline) : Prop where
  statistics : other.statistics = final.statistics
  methods : ∀ place : Fin program.methods.length, ∃ method,
    final.program.methods[(order place : Nat)]? = some method ∧
      other.program.methods[(place : Nat)]? = some (method.moved place)
  outlines : other.program.methods.drop program.methods.length =
    final.program.methods.drop program.methods.length

section Rearranged

variable {returned : Option Holder} {final : Pipeline}
  (order : Equiv.Perm (Fin program.methods.length))

theorem indexed_rearranged : Indexed (program.rearranged order) := by
  intro place method found
  have inside : place < program.methods.length := by
    simpa [Program.rearranged] using (List.getElem?_eq_some_iff.mp found).1
  rw [program.getElem?_rearranged order ⟨place, inside⟩] at found
  obtain rfl := Option.some.inj found
  rfl

theorem complaint?_rearranged (valid : program.complaint? = none) :
    (program.rearranged order).complaint? = none := by
  refine (Program.complaint?_eq_none_iff _).mpr fun place method found => ?_
  refine ⟨indexed_rearranged order place method found, ?_⟩
  obtain ⟨source, member, index, rfl⟩ :=
    (program.shuffled_rearranged order).exists_source (List.mem_of_getElem? found)
  exact @valid_of_mem _ source valid member

/-- No window breaks an assertion in another order if none does. -/
theorem allSound_rearranged (sound : AllSound options program) :
    AllSound options (program.rearranged order) := by
  intro method member plain
  obtain ⟨source, present, index, rfl⟩ :=
    (program.shuffled_rearranged order).exists_source member
  rw [Sound, source.scan_moved]
  exact sound source present plain

theorem returned_congr (same : remade.map (·.2) = made.map (·.2)) :
    (if remade = [] then none else some (holderOf options remade)) =
      if made = [] then none else some (holderOf options made) := by
  have empty : remade = [] ↔ made = [] := by
    rw [← List.map_eq_nil_iff (f := Prod.snd), same, List.map_eq_nil_iff]
  rw [holderOf, holderOf, same]
  simp only [empty]

theorem reordered_of_finished {again : Option Holder} {other : Pipeline}
    (indexed : Indexed program) (finished : Finished options program made returned final)
    (refinished : Finished options (program.rearranged order) remade again other)
    (same : remade.map (·.2) = made.map (·.2)) : Reordered program order final other := by
  have shuffled := program.shuffled_rearranged order
  have reindexed := indexed_rearranged order
  have length : remade.length = made.length := by simpa using congrArg List.length same
  refine ⟨?_, fun place => ?_, ?_⟩
  · rw [refinished.statistics, finished.statistics]
    exact tallied_eq shuffled reindexed indexed finished.builds refinished.builds length
  · have stands : program.methods[(order place : Nat)]? = some program.methods[order place] :=
      List.getElem?_eq_getElem (order place).isLt
    have moved := program.getElem?_rearranged order place
    refine ⟨_, finished.getElem?_methods stands, ?_⟩
    rw [refinished.getElem?_methods moved, outcome_moved shuffled reindexed indexed
      finished.builds refinished.builds (List.mem_of_getElem? stands) (List.mem_of_getElem? moved)]
  · rw [finished.drop_methods, ← same, ← refinished.drop_methods, shuffled.length_eq]

/-- The result of a run does not depend on the order of the methods. A run on a valid program in
another order returns the same holder and counts the same, and each method is rewritten in the same
way, wherever it stands. -/
theorem run_rearranged (valid : program.complaint? = none)
    (done : run.run (start options program) = .ok returned final) :
    ∃ other, run.run (start options (program.rearranged order)) = .ok returned other ∧
      Reordered program order final other := by
  cases enabled : options.enabled with
  | false =>
    rw [run_of_disabled enabled] at done
    cases done
    refine ⟨_, run_of_disabled enabled, rfl, fun place => ?_, ?_⟩
    · exact ⟨program.methods[order place], by simp [start],
        program.getElem?_rearranged order place⟩
    · simp [start, Program.rearranged]
  | true =>
    have indexed := indexed_of_valid valid
    obtain ⟨made, finished⟩ := finished_of_run enabled done
    obtain ⟨remade, rebuilds, same⟩ := exists_rebuilds (program.shuffled_rearranged order)
      (indexed_rearranged order) indexed finished.builds
    obtain ⟨again, other, redone⟩ := exists_run_of_builds (complaint?_rearranged order valid)
      (allSound_rearranged order (allSound_of_run enabled done)) rebuilds
    -- this run made the same outlines, since the templates decide them
    obtain ⟨_, refinished⟩ := finished_of_run enabled redone
    obtain rfl := made_unique refinished.builds rebuilds
    obtain rfl : again = returned := by
      rw [refinished.returned, finished.returned, returned_congr same]
    exact ⟨other, redone, reordered_of_finished order indexed finished refinished same⟩

end Rearranged

/-- A program with a method that computes a sum twice, and one that is never outlined. -/
def sumsAndKept : Program := ⟨[sumsTwice 0 false, sumsTwice 1 true]⟩

/-- The order in which the two methods change their places. -/
def turned : Equiv.Perm (Fin sumsAndKept.methods.length) :=
  Equiv.swap ⟨0, by decide⟩ ⟨1, by decide⟩

theorem exists_run_turned : ∃ holder final other,
    run.run (start paired sumsAndKept) = .ok (some holder) final ∧
      run.run (start paired (sumsAndKept.rearranged turned)) = .ok (some holder) other ∧
      Reordered sumsAndKept turned final other := by
  have returns : succeeds (fun returned _ => returned.isSome)
      (run.run (start paired sumsAndKept)) = true := by decide +kernel
  obtain ⟨returned, final, done, some⟩ := exists_of_succeeds returns
  obtain ⟨holder, rfl⟩ := Option.isSome_iff_exists.mp some
  obtain ⟨other, redone, reordered⟩ := run_rearranged turned (by decide) done
  exact ⟨holder, final, other, done, redone, reordered⟩

end Pipeline

end Outlining
