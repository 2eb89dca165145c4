import Outlining.Proofs.Window.Awaited
import Outlining.Proofs.Window.Scan

/-! Over the same instructions in two bodies that await the same values after them, windows grow
alike: both go on with what follows, or both stop at the same place. -/
namespace Outlining.Window

open Outlining.Bytecode Outlining.Template

/-- Whether a method has the types of another one, and values with the same roots in the changed
instructions. -/
structure Mirrors (limits : Limits) (method copy : Method) (change : Instruction → Instruction) :
    Prop where
  types : copy.types = method.types
  twins : ∀ instruction ∈ method.instructions,
    Twins (.ofMethod method limits) (.ofMethod copy limits) instruction (change instruction)

/-- Whether two results of growth are windows that are alike and end at the same place, or none. -/
inductive AlikeResults : Option (Window × Nat) → Option (Window × Nat) → Prop where
  | none : AlikeResults none none
  | some {window other : Window} (alike : Alike window other) (last : Nat) :
      AlikeResults (some (window, last)) (some (other, last))

variable {method copy : Method} {limits : Limits} {change : Instruction → Instruction}
  {past taken plain future pastCopy futureCopy : List Instruction} {instruction : Instruction}
  {window other : Window} {value : Var}

theorem Alike.ended (alike : Alike window other) : AlikeResults window.ended other.ended := by
  unfold Window.ended
  rw [alike.taken]
  split
  · exact .none
  · exact .some alike _

namespace Mirrors

variable (mirrors : Mirrors limits method copy change)
include mirrors

theorem agrees : (Scope.ofMethod method limits).Agrees (.ofMethod copy limits) :=
  ⟨mirrors.types, rfl⟩

theorem results_filter (inside : ∀ instruction ∈ taken, instruction ∈ method.instructions) :
    results ((taken.map change).filter (·.isOperation)) =
      results (taken.filter (·.isOperation)) := by
  induction taken with
  | nil => rfl
  | cons instruction taken inductionHypothesis =>
    have twins := mirrors.twins instruction (inside instruction List.mem_cons_self)
    have rest :=
      inductionHypothesis fun other member => inside other (List.mem_cons_of_mem _ member)
    rw [List.map_cons, List.filter_cons, List.filter_cons, twins.isOperation]
    split
    · simp only [results, List.filterMap_cons, twins.result] at rest ⊢
      rw [rest]
    · exact rest

theorem lastResult_eq (inside : ∀ instruction ∈ taken, instruction ∈ method.instructions) :
    lastResult ((taken.map change).filter (·.isOperation)) =
      lastResult (taken.filter (·.isOperation)) :=
  congrArg List.getLast? (mirrors.results_filter inside)

theorem isAwaited_iff (inside : ∀ instruction ∈ plain, instruction ∈ method.instructions) :
    IsAwaited copy (plain.map change) value ↔ IsAwaited method plain value := by
  have same : ∀ instruction ∈ plain,
      (∃ operand ∈ (change instruction).operands,
        (Usage.ofMethod copy).root operand = value) ↔
      ∃ operand ∈ instruction.operands, (Usage.ofMethod method).root operand = value := by
    intro instruction member
    rw [← List.mem_map, ← List.mem_map]
    exact iff_of_eq (congrArg (value ∈ ·) (mirrors.twins instruction (inside _ member)).operands)
  constructor
  · rintro ⟨reader, member, awaits⟩
    obtain ⟨instruction, present, rfl⟩ := List.mem_map.mp member
    exact ⟨instruction, present, (same instruction present).mp awaits⟩
  · rintro ⟨instruction, present, awaits⟩
    exact ⟨_, List.mem_map_of_mem present, (same instruction present).mpr awaits⟩

theorem isAwaited_lastResult_iff (inside : ∀ instruction ∈ taken, instruction ∈ method.instructions)
    (ahead : ∀ instruction ∈ plain, instruction ∈ method.instructions)
    (awaits : ∀ value ∈ results taken,
      IsAwaited method future value ↔ IsAwaited copy futureCopy value) :
    (∃ value, lastResult ((taken.map change).filter (·.isOperation)) = some value ∧
      IsAwaited copy (plain.map change ++ futureCopy) value) ↔
    ∃ value, lastResult (taken.filter (·.isOperation)) = some value ∧
      IsAwaited method (plain ++ future) value := by
  rw [mirrors.lastResult_eq inside]
  refine exists_congr fun value => and_congr_right fun last => ?_
  have written := mem_results_of_operation (List.mem_of_getLast? last)
  rw [isAwaited_append, isAwaited_append, mirrors.isAwaited_iff ahead, awaits value written]

end Mirrors

/-- Whether instructions stand in two bodies in order that await the same of their results after
them. -/
def Aligned (method copy : Method) (change : Instruction → Instruction)
    (plain : List Instruction) : Prop :=
  ∃ past future pastCopy futureCopy,
    Arranged method (past ++ (plain ++ future)) ∧
    Arranged copy (pastCopy ++ (plain.map change ++ futureCopy)) ∧
    ∀ value ∈ results plain, IsAwaited method future value ↔ IsAwaited copy futureCopy value

theorem Aligned.of_append (aligned : Aligned method copy change (taken ++ plain)) :
    Aligned method copy change plain := by
  obtain ⟨past, future, pastCopy, futureCopy, arranged, arrangedCopy, awaits⟩ := aligned
  refine ⟨past ++ taken, future, pastCopy ++ taken.map change, futureCopy, by simpa using arranged,
    by simpa using arrangedCopy, ?_⟩
  intro value written
  apply awaits value
  rw [results_append]
  exact List.mem_append_right _ written

/-- Two windows over the same instructions in two bodies that await the same values after the
instructions that the windows have taken and may still take. -/
structure Paired (limits : Limits) (method copy : Method) (change : Instruction → Instruction)
    (taken plain : List Instruction) (window other : Window) : Prop where
  grown : Grown (.ofMethod method limits) taken window
  grownCopy : Grown (.ofMethod copy limits) (taken.map change) other
  alike : Alike window other
  aligned : Aligned method copy change (taken ++ plain)

theorem Paired.context (paired : Paired limits method copy change taken plain window other) :
    ∃ past future pastCopy futureCopy,
      Arranged method (past ++ taken ++ (plain ++ future)) ∧
      Arranged copy (pastCopy ++ taken.map change ++ (plain.map change ++ futureCopy)) ∧
      ∀ value ∈ results (taken ++ plain),
        IsAwaited method future value ↔ IsAwaited copy futureCopy value := by
  obtain ⟨past, future, pastCopy, futureCopy, arranged, arrangedCopy, awaits⟩ := paired.aligned
  exact ⟨past, future, pastCopy, futureCopy, by simpa using arranged, by simpa using arrangedCopy,
    awaits⟩

theorem Paired.inside (paired : Paired limits method copy change taken plain window other) :
    ∀ instruction ∈ taken ++ plain, instruction ∈ method.instructions := by
  obtain ⟨past, future, _, _, arranged, _⟩ := paired.context
  intro instruction member
  apply arranged.perm.mem_iff.mp
  simp only [List.mem_append] at member ⊢
  rcases member with early | late
  · exact .inl (.inr early)
  · exact .inr (.inl late)

section Step

variable (mirrors : Mirrors limits method copy change)
  (paired : Paired limits method copy change taken (instruction :: plain) window other)
include mirrors paired

theorem Paired.overwrites (operates : instruction.isOperation = true) :
    other.overwrites (.ofMethod copy limits) (change instruction) =
      window.overwrites (.ofMethod method limits) instruction := by
  have inside := paired.inside
  have twins := mirrors.twins instruction (inside instruction (by simp))
  obtain ⟨past, future, pastCopy, futureCopy, arranged, arrangedCopy, awaits⟩ := paired.context
  have arranged : Arranged method (past ++ taken ++ instruction :: (plain ++ future)) := arranged
  have arrangedCopy : Arranged copy (pastCopy ++ taken.map change ++
      change instruction :: (plain.map change ++ futureCopy)) := arrangedCopy
  rw [Bool.eq_iff_iff,
    paired.grown.overwrites_iff arranged (Instruction.refinement?_eq_none operates),
    paired.grownCopy.overwrites_iff arrangedCopy
      (Instruction.refinement?_eq_none (twins.isOperation.trans operates)), twins.result]
  apply and_congr_right
  intro _
  apply mirrors.isAwaited_lastResult_iff
  · intro other member
    exact inside other (List.mem_append_left _ member)
  · intro other member
    exact inside other (List.mem_append_right _ (List.mem_cons_of_mem _ member))
  · intro value written
    apply awaits value
    rw [results_append]
    exact List.mem_append_left _ written

/-- The next instruction is admitted to both windows or to neither. -/
theorem Paired.admits : other.admits (.ofMethod copy limits) (change instruction) =
    window.admits (.ofMethod method limits) instruction := by
  have twins := mirrors.twins instruction (paired.inside instruction (by simp))
  by_cases operates : instruction.isOperation = true
  · exact paired.alike.admits twins mirrors.agrees (paired.overwrites mirrors operates)
  · have refused : ¬ window.admits (.ofMethod method limits) instruction = true :=
      fun admitted => operates (admits_iff.mp admitted).operates
    have refusedCopy : ¬ other.admits (.ofMethod copy limits) (change instruction) = true :=
      fun admitted => operates (twins.isOperation.symm.trans (admits_iff.mp admitted).operates)
    rw [Bool.not_eq_true] at refused refusedCopy
    rw [refused, refusedCopy]

private theorem Paired.take
    (grown : Grown (.ofMethod method limits) (taken ++ [instruction])
      (window.take (.ofMethod method limits) instruction))
    (grownCopy : Grown (.ofMethod copy limits) ((taken ++ [instruction]).map change)
      (other.take (.ofMethod copy limits) (change instruction))) :
    Paired limits method copy change (taken ++ [instruction]) plain
      (window.take (.ofMethod method limits) instruction)
      (other.take (.ofMethod copy limits) (change instruction)) := by
  have inside := paired.inside
  have twins := mirrors.twins instruction (inside instruction (by simp))
  have aligned : Aligned method copy change (taken ++ [instruction] ++ plain) := by
    simpa using paired.aligned
  obtain ⟨past, future, pastCopy, futureCopy, arranged, arrangedCopy, awaits⟩ := paired.context
  have arranged : Arranged method (past ++ (taken ++ [instruction]) ++ (plain ++ future)) := by
    simpa using arranged
  have arrangedCopy : Arranged copy
      (pastCopy ++ (taken ++ [instruction]).map change ++ (plain.map change ++ futureCopy)) := by
    simpa using arrangedCopy
  refine ⟨grown, grownCopy, ?_, aligned⟩
  apply paired.alike.take twins mirrors.agrees
  rw [Bool.eq_iff_iff, grown.isSome_temporary_iff arranged,
    grownCopy.isSome_temporary_iff arrangedCopy]
  apply mirrors.isAwaited_lastResult_iff
  · intro other member
    exact inside other (by simpa using List.mem_append_left plain member)
  · intro other member
    exact inside other (by simp [member])
  · intro value written
    apply awaits value
    have whole : taken ++ instruction :: plain = taken ++ [instruction] ++ plain := by simp
    rw [whole, results_append]
    exact List.mem_append_left _ written

/-- Two windows that are paired take the next instruction as a pair. -/
theorem Paired.next (begun : ¬ (instruction.isTransparent && window.taken == 0) = true)
    (accepted : (instruction.isTransparent ||
      window.admits (.ofMethod method limits) instruction) = true) :
    Paired limits method copy change (taken ++ [instruction]) plain
      (window.take (.ofMethod method limits) instruction)
      (other.take (.ofMethod copy limits) (change instruction)) := by
  have twins := mirrors.twins instruction (paired.inside instruction (by simp))
  rcases Bool.or_eq_true_iff.mp accepted with transparent | admitted
  · have some : taken ≠ [] := by
      rintro rfl
      simp [transparent, paired.grown.taken_eq] at begun
    apply paired.take mirrors
    · exact paired.grown.ride some transparent
    · rw [List.map_append]
      apply paired.grownCopy.ride
      · simpa using some
      · exact twins.isTransparent.trans transparent
  · apply paired.take mirrors
    · exact paired.grown.operate admitted
    · rw [List.map_append]
      exact paired.grownCopy.operate ((paired.admits mirrors).trans admitted)

end Step

/-- Two windows that are paired go on with windows that are paired, or stop alike. -/
theorem Paired.lockstep (mirrors : Mirrors limits method copy change)
    (paired : Paired limits method copy change taken plain window other) :
    (∃ next nextCopy, Passes (.ofMethod method limits) window plain next ∧
      Passes (.ofMethod copy limits) other (plain.map change) nextCopy ∧
      Paired limits method copy change (taken ++ plain) [] next nextCopy) ∨
    ∃ result resultCopy, Stops (.ofMethod method limits) window plain result ∧
      Stops (.ofMethod copy limits) other (plain.map change) resultCopy ∧
      AlikeResults result resultCopy := by
  induction plain generalizing taken window other with
  | nil => exact .inl ⟨window, other, fun _ => rfl, fun _ => rfl, by simpa using paired⟩
  | cons instruction plain inductionHypothesis =>
    have twins := mirrors.twins instruction (paired.inside instruction (by simp))
    simp only [Passes, Stops, List.map_cons, List.cons_append, grow, twins.isTransparent,
      paired.admits mirrors, paired.alike.taken]
    by_cases first : (instruction.isTransparent && window.taken == 0) = true
    · simp only [first, if_true]
      exact .inr ⟨none, none, fun _ => rfl, fun _ => rfl, .none⟩
    by_cases accepted : (instruction.isTransparent ||
        window.admits (.ofMethod method limits) instruction) = true
    · have next := paired.next mirrors first accepted
      simp only [first, accepted, if_true, next.alike.operations]
      by_cases full : limits.maxSize ≤
          (window.take (.ofMethod method limits) instruction).operations
      · exact .inr ⟨_, _, fun _ => if_pos full, fun _ => if_pos full, .some next.alike _⟩
      · rcases inductionHypothesis next with
          ⟨last, lastCopy, passes, passesCopy, further⟩ |
            ⟨result, resultCopy, stops, stopsCopy, same⟩
        · refine .inl ⟨last, lastCopy, fun tail => ?_, fun tail => ?_, by simpa using further⟩
          · exact (if_neg full).trans (passes tail)
          · exact (if_neg full).trans (passesCopy tail)
        · refine .inr ⟨result, resultCopy, fun tail => ?_, fun tail => ?_, same⟩
          · exact (if_neg full).trans (stops tail)
          · exact (if_neg full).trans (stopsCopy tail)
    · simp only [first, accepted]
      exact .inr ⟨_, _, fun _ => rfl, fun _ => rfl, paired.alike.ended⟩

/-- Two windows that are paired have the same growth over the instructions. -/
theorem Paired.grow (mirrors : Mirrors limits method copy change)
    (paired : Paired limits method copy change taken plain window other) :
    AlikeResults (grow (.ofMethod method limits) window plain)
      (grow (.ofMethod copy limits) other (plain.map change)) := by
  rcases paired.lockstep mirrors with
    ⟨next, nextCopy, passes, passesCopy, further⟩ | ⟨result, resultCopy, stops, stopsCopy, same⟩
  · have whole := passes []
    have wholeCopy := passesCopy []
    rw [List.append_nil] at whole wholeCopy
    rw [whole, wholeCopy]
    exact further.alike.ended
  · have whole := stops []
    have wholeCopy := stopsCopy []
    rw [List.append_nil] at whole wholeCopy
    rwa [whole, wholeCopy]

section Sketch

variable (mirrors : Mirrors limits method copy change)
include mirrors

/-- Windows that are alike have the same template over the same instructions. -/
theorem Mirrors.template (alike : Alike window other)
    (inside : ∀ instruction ∈ taken, instruction ∈ method.instructions) :
    other.template (trim (taken.map change)) = window.template (trim taken) := by
  have operations : ((trim (taken.map change)).filter (·.isOperation)).filterMap
        Operation.ofInstruction? =
      ((trim taken).filter (·.isOperation)).filterMap Operation.ofInstruction? := by
    rw [trim_map fun instruction member => (mirrors.twins _ (inside _ member)).isTransparent,
      List.filter_map, List.filterMap_map]
    have kept : (trim taken).filter ((·.isOperation) ∘ change) =
        (trim taken).filter (·.isOperation) :=
      List.filter_congr fun instruction member =>
        (mirrors.twins _ (inside _ (mem_of_mem_trim member))).isOperation
    rw [kept]
    exact List.filterMap_congr fun instruction member =>
      (mirrors.twins _ (inside _ (mem_of_mem_trim (List.mem_filter.mp member).1))).operation
  have types := congrArg (Option.map Prod.snd) alike.temporary
  rw [Option.map_map, Option.map_map] at types
  simp only [Window.template, operations, alike.arguments, alike.slots]
  exact congrArg _ (congrArg (·.getD .void) types)

theorem Mirrors.sketch_candidate (alike : Alike window other)
    (inside : ∀ instruction ∈ taken, instruction ∈ method.instructions) :
    sketch (candidate (.ofMethod copy limits) 0 0 other (taken.map change)) =
      sketch (candidate (.ofMethod method limits) 0 0 window taken) := by
  rw [Window.sketch_candidate, Window.sketch_candidate, mirrors.template alike inside,
    alike.arguments, mirrors.agrees.registers, mirrors.agrees.limits]

theorem Mirrors.closing (alike : Alike window other) (last : Nat)
    (inside : ∀ instruction ∈ plain, instruction ∈ method.instructions) :
    closing (.ofMethod copy limits) (plain.map change) other last =
      closing (.ofMethod method limits) plain window last := by
  cases waits : window.pending with
  | some allocation =>
    rw [closing_of_pending _ _ _ waits, closing_of_pending _ _ _ (alike.pending.trans waits)]
  | none =>
    by_cases small : window.operations < limits.minSize
    · rw [closing_of_small _ _ waits small,
        closing_of_small _ _ (alike.pending.trans waits) (alike.operations ▸ small)]
    · rw [closing_of_large _ _ waits small,
        closing_of_large _ _ (alike.pending.trans waits) (alike.operations ▸ small),
        ← List.map_take, mirrors.sketch_candidate alike fun instruction member =>
          inside instruction (List.mem_of_mem_take member)]

/-- Two bodies that await the same values after some instructions have the same windows in them. -/
theorem Mirrors.sketches (aligned : Aligned method copy change plain) :
    sketches (.ofMethod copy limits) (plain.map change) =
      sketches (.ofMethod method limits) plain := by
  induction plain using scan_induction with
  | nil => rfl
  | cons instruction plain inductionHypothesis =>
    have paired : Paired limits method copy change [] (instruction :: plain) empty empty :=
      ⟨.start, .start, .refl empty, aligned⟩
    have later (skip : Nat) :
        Window.sketches (.ofMethod copy limits) ((plain.drop skip).map change) =
          Window.sketches (.ofMethod method limits) (plain.drop skip) := by
      have whole : instruction :: plain = instruction :: plain.take skip ++ plain.drop skip := by
        rw [List.cons_append, List.take_append_drop]
      rw [whole] at aligned
      exact inductionHypothesis skip aligned.of_append
    have same := paired.grow mirrors
    rw [List.map_cons] at same ⊢
    generalize grew : Window.grow (.ofMethod method limits) empty (instruction :: plain) = result,
      grewCopy : Window.grow (.ofMethod copy limits) empty
        (change instruction :: plain.map change) = resultCopy at same
    cases same with
    | none =>
      rw [sketches_cons_of_none grew, sketches_cons_of_none grewCopy]
      exact later 0
    | some alike last =>
      have closes := mirrors.closing alike last paired.inside
      rw [List.nil_append, List.map_cons] at closes
      rw [sketches_cons_of_some grew, sketches_cons_of_some grewCopy, closes, ← List.map_drop,
        later]

end Sketch

end Outlining.Window
