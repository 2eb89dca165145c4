import Mathlib
import Outlining.Proofs.Pipeline.Faultless
import Outlining.Proofs.Pipeline.Tally

/-! Outlines are numbered, so those of one run have different references. A program whose methods
have different references keeps this exactly if none of them has the reference of an outline. -/
namespace Outlining

open Outlining.Bytecode Outlining.Template Outlining.Window

namespace Holder

variable {type : Descriptor} {stem : String} {first number : Nat}
  {templates : List (TemplateIndex × Template)} {made : List (Outline × Method)}

theorem reference_of_outlines (built : outlines type stem first number templates = .ok made)
    {place : Nat} {result : Outline × Method} (found : made[place]? = some result) :
    result.2.reference = result.1.reference ∧ ∃ prototype : Prototype,
      result.2.reference = ⟨type, stem ++ toString (number + place), prototype⟩ := by
  obtain ⟨entry, _, making⟩ := (made_of_outlines built place).1 result found
  have reference := (of_body_eq_ok making.body).2.1
  refine ⟨reference, ⟨entry.2.returnType, entry.2.argumentTypes⟩, reference.trans ?_⟩
  rw [making.outline]

theorem nodup_references (built : outlines type stem first number templates = .ok made) :
    ((made.map (·.2)).map (·.reference)).Nodup := by
  rw [List.map_map, List.nodup_iff_getElem?_ne_getElem?]
  intro place other before inside same
  rw [List.length_map] at inside
  have found := List.getElem?_eq_getElem inside
  have foundBefore := List.getElem?_eq_getElem (Nat.lt_trans before inside)
  obtain ⟨_, _, reference⟩ := reference_of_outlines built found
  obtain ⟨_, _, referenceBefore⟩ := reference_of_outlines built foundBefore
  rw [List.getElem?_map, List.getElem?_map, found, foundBefore, Option.map_some, Option.map_some,
    Function.comp_apply, Function.comp_apply, reference, referenceBefore] at same
  injection same with same
  injection same with _ names _
  have numbers := Nat.repr_injective ((String.append_right_inj _).mp names)
  omega

end Holder

namespace Pipeline

variable {options : Options} {program : Program} {final : Pipeline} {returned : Option Holder}
  {method : Method} {outlines : List Outline} {limits : Limits} {selection : List MethodIndex}

theorem reference_outcome :
    (outcome outlines limits selection method).reference = method.reference := by
  rw [outcome_eq]

def outlinesOf (returned : Option Holder) : List Method := (returned.map (·.methods)).getD []

theorem Finished.outlinesOf_eq {made : List (Outline × Method)}
    (finished : Finished options program made returned final) :
    outlinesOf returned = made.map (·.2) := by
  rw [finished.returned]
  split
  · rename_i none
    rw [none]
    rfl
  · rfl

/-- A run changes methods where they stand, and appends the outlines that it has made, if any. -/
theorem exists_made_of_run (done : run.run (start options program) = .ok returned final) :
    ∃ made : List (Outline × Method), (made = [] ∨ Builds options program made) ∧
      outlinesOf returned = made.map (·.2) ∧ final.program.methods = program.methods.map
        (outcome (made.map (·.1)) options.limits (selectionOf options program)) ++
          made.map (·.2) := by
  cases enabled : options.enabled with
  | false =>
    rw [run_of_disabled enabled] at done
    cases done
    refine ⟨[], .inl rfl, rfl, ?_⟩
    rw [List.map_nil, outcome_nil, List.map_id, List.map_nil, List.append_nil]
    rfl
  | true =>
    obtain ⟨made, finished⟩ := finished_of_run enabled done
    exact ⟨made, .inr finished.builds, finished.outlinesOf_eq, finished.methods⟩

theorem references_of_run (done : run.run (start options program) = .ok returned final) :
    (∃ methods, final.program.methods = methods ++ outlinesOf returned ∧
      methods.map (·.reference) = program.methods.map (·.reference)) ∧
    ((outlinesOf returned).map (·.reference)).Nodup := by
  obtain ⟨made, builds, outlines, methods⟩ := exists_made_of_run done
  rw [outlines]
  constructor
  · refine ⟨_, methods, ?_⟩
    rw [List.map_map]
    apply List.map_congr_left
    intro method _
    exact reference_outcome
  · rcases builds with rfl | builds
    · exact List.nodup_nil
    · exact Holder.nodup_references builds

/-- Among methods with different references, each is the only one with its reference. -/
theorem filter_reference {methods : List Method}
    (distinct : (methods.map (·.reference)).Nodup) (member : method ∈ methods) :
    methods.filter (·.reference == method.reference) = [method] := by
  obtain ⟨before, after, rfl⟩ := List.append_of_mem member
  rw [List.map_append, List.map_cons, List.nodup_middle, List.nodup_cons, ← List.map_append]
    at distinct
  have others : ∀ other ∈ before ++ after, ¬ (other.reference == method.reference) = true := by
    intro other listed same
    rw [beq_iff_eq] at same
    exact distinct.1 (same ▸ List.mem_map_of_mem listed)
  rw [List.filter_append, List.filter_cons_of_pos (by simp),
    List.filter_eq_nil_iff.mpr fun other listed => others other (List.mem_append_left _ listed),
    List.filter_eq_nil_iff.mpr fun other listed => others other (List.mem_append_right _ listed)]
  rfl

/-- After a run the references of methods are different if they were before, unless a method
already has the reference of an outline. If they are, each outline is the only method with its
reference. -/
theorem references_distinct_iff {options : Options} {program : Program}
    {returned : Option Holder} {final : Pipeline}
    (distinct : (program.methods.map (·.reference)).Nodup)
    (done : run.run (start options program) = .ok returned final) :
    ((final.program.methods.map (·.reference)).Nodup ↔
      ∀ outline ∈ outlinesOf returned, outline.reference ∉ program.methods.map (·.reference)) ∧
    ((final.program.methods.map (·.reference)).Nodup → ∀ outline ∈ outlinesOf returned,
      final.program.methods.filter (·.reference == outline.reference) = [outline]) := by
  obtain ⟨⟨methods, appended, kept⟩, apart⟩ := references_of_run done
  constructor
  · rw [appended, List.map_append, kept, List.nodup_append]
    constructor
    · rintro ⟨_, _, differ⟩ outline member present
      exact differ _ present _ (List.mem_map_of_mem member) rfl
    · intro fresh
      refine ⟨distinct, apart, ?_⟩
      rintro reference present other member rfl
      obtain ⟨outline, listed, rfl⟩ := List.mem_map.mp member
      exact fresh outline listed present
  · intro whole outline member
    apply filter_reference whole
    rw [appended]
    exact List.mem_append_right _ member

/-- A method that has the reference of the first outline with these parameters. -/
def earlierOutline : Method where
  index := 1
  reference := ⟨eager.holderType, eager.nameStem ++ "0", ⟨.int, [.int, .int]⟩⟩
  types := [.number .int, .number .int, .number .int]
  blocks := [⟨0, [⟨.argument 0, [], some 0, some 0⟩, ⟨.argument 1, [], some 1, some 0⟩,
    ⟨.arithmetic .mul .int, [0, 1], some 2, some 0⟩, ⟨.ret, [2], none, some 0⟩], [], []⟩]
  synthetic := true

def returnsSum : Method where
  index := 0
  reference := ⟨⟨"LA;"⟩, "m", ⟨.int, [.int, .int]⟩⟩
  types := [.number .int, .number .int, .number .int]
  blocks := [⟨0, [⟨.argument 0, [], some 0, none⟩, ⟨.argument 1, [], some 1, none⟩,
    ⟨.arithmetic .add .int, [0, 1], some 2, none⟩, ⟨.ret, [2], none, none⟩], [], []⟩]
  synthetic := false

/-- A run may give the reference of a method to another one. -/
theorem exists_run_clash : ∃ returned final,
    run.run (start eager ⟨[returnsSum, earlierOutline]⟩) = .ok returned final ∧
      ¬ (final.program.methods.map (·.reference)).Nodup ∧
      ∃ outline ∈ outlinesOf returned,
        outline.reference ∈ [returnsSum.reference, earlierOutline.reference] := by
  have returns : succeeds (fun _ final => decide ¬ (final.program.methods.map (·.reference)).Nodup)
      (run.run (start eager ⟨[returnsSum, earlierOutline]⟩)) = true := by decide +kernel
  obtain ⟨returned, final, done, checked⟩ := exists_of_succeeds returns
  have clash := of_decide_eq_true checked
  have known := (references_distinct_iff (by decide) done).1
  refine ⟨returned, final, done, clash, ?_⟩
  by_contra fresh
  apply clash
  apply known.mpr
  intro outline member present
  exact fresh ⟨outline, member, present⟩

end Pipeline

end Outlining
