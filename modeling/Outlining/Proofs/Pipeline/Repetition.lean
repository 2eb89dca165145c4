import Outlining.Proofs.Pipeline.Determination
import Outlining.Proofs.Pipeline.Idle
import Outlining.Proofs.Pipeline.Remainder

/-! A second run finds in every method the windows that the first run has left, and these are too
few to get outlines. This takes that nothing around the windows replaced depended on them: an
earlier window that awaits a constructor is given up once the constructor is known to be out of
reach, and a value whose last reader was taken away is not read any more. -/
namespace Outlining.Pipeline

open Outlining.Bytecode Outlining.Rewriting Outlining.Template Outlining.Window

variable {options : Options} {program : Program} {returned : Option Holder} {final : Pipeline}
  {made : List (Outline × Method)} {method : Method} {limits : Limits} {template : Template}

/-- Whether nothing around a window of a method depends on it: no earlier window grows into it and
still waits for the constructor of its first instance, and what its refinements write is read. -/
structure Detached (limits : Limits) (method : Method) (candidate : Candidate) : Prop where
  unawaited : ∀ block ∈ method.blocks[candidate.block]?,
    ¬ Awaits (.ofMethod method limits) (block.instructions.take candidate.start)
      (block.instructions.drop candidate.start)
  readers : ∀ instruction ∈ windowOf method candidate, instruction.role = .refinement →
    ∀ value ∈ instruction.result, value ∈ method.reads

theorem detached_iff {candidate : Candidate} : Detached limits method candidate ↔
    (∀ block ∈ method.blocks[candidate.block]?,
      ¬ Awaits (.ofMethod method limits) (block.instructions.take candidate.start)
        (block.instructions.drop candidate.start)) ∧
    ∀ instruction ∈ windowOf method candidate, instruction.role = .refinement →
      ∀ value ∈ instruction.result, value ∈ method.reads :=
  ⟨fun detached => ⟨detached.unawaited, detached.readers⟩, fun both => ⟨both.1, both.2⟩⟩

instance (limits : Limits) (method : Method) (candidate : Candidate) :
    Decidable (Detached limits method candidate) :=
  decidable_of_iff _ detached_iff.symm

/-- Whether nothing depends on the windows that a run replaces. -/
def ReplacesDetached (options : Options) (program : Program) : Prop :=
  ∀ method ∈ frequentMethods options program, ∀ candidate ∈ found options.limits method,
    IsWorthwhile options program candidate.template → Detached options.limits method candidate

instance (options : Options) (program : Program) : Decidable (ReplacesDetached options program) :=
  inferInstanceAs (Decidable (∀ method ∈ frequentMethods options program,
    ∀ candidate ∈ found options.limits method,
      IsWorthwhile options program candidate.template → Detached options.limits method candidate))

theorem templatesIn_eq (limits : Limits) (method : Method) :
    templatesIn limits method = ((method.scan limits).map sketch).filterMap (·.toOption) := by
  rw [templatesIn, found, List.map_filterMap, List.filterMap_map]
  apply List.filterMap_congr
  intro result _
  cases result <;> rfl

section Outlined

variable (valid : program.complaint? = none) (outlined : Outlined options program made final)
include valid outlined

theorem indexed_of_outlined : Indexed final.program := by
  intro place method listed
  rw [outlined.methods] at listed
  by_cases inside : place < program.methods.length
  · rw [List.getElem?_append_left (by simpa using inside), List.getElem?_map,
      Option.map_eq_some_iff] at listed
    obtain ⟨before, there, rfl⟩ := listed
    rw [outcome_eq]
    exact indexed_of_valid valid place before there
  · rw [List.getElem?_append_right (by simpa using Nat.not_lt.mp inside)] at listed
    have added := index_of_made outlined.builds _ method listed
    rw [added, List.length_map]
    exact Nat.add_sub_of_le (Nat.not_lt.mp inside)

theorem outlineFor?_eq_none_iff :
    outlineFor? (made.map (·.1)) template = none ↔ ¬ IsWorthwhile options program template := by
  rw [← mem_templatesOf_iff (indexed_of_valid valid)]
  constructor
  · intro none listed
    obtain ⟨outline, known, _⟩ := outlineFor?_of_mem outlined.builds listed
    rw [none] at known
    cases known
  · exact outlineFor?_of_notMem outlined.builds

variable (assigned : ∀ method ∈ program.methods, method.synthetic = false →
    method.SingleAssignment) (detached : ReplacesDetached options program)
include assigned detached

/-- A second scan of a frequent method finds the windows whose template is not worthwhile. -/
theorem perm_scan_of_frequent (frequent : method ∈ frequentMethods options program) :
    (((rewritten (made.map (·.1)) options.limits method).scan options.limits).map sketch).Perm
      (((method.scan options.limits).map sketch).filter (isSpared (made.map (·.1)))) := by
  obtain ⟨member, plain⟩ := mem_plainMethods_iff.mp (List.mem_filter.mp frequent).1
  have replaced : ∀ hit ∈ hits (made.map (·.1)) (found options.limits method),
      Detached options.limits method hit.2 := by
    intro hit listed
    obtain ⟨inside, known⟩ := mem_hits_iff.mp listed
    apply detached method frequent hit.2 inside
    by_contra spared
    rw [(outlineFor?_eq_none_iff valid outlined).mpr spared] at known
    cases known
  exact perm_scan_rewritten (valid_of_mem valid member) (assigned method member plain)
    (fun hit listed => (replaced hit listed).readers)
    (fun hit listed => (replaced hit listed).unawaited)

/-- A run takes the windows of worthwhile templates away, and adds no other windows. -/
theorem depleted_of_outlined : Depleted options program
    (outcome (made.map (·.1)) options.limits (selectionOf options program)) (made.map (·.2))
    final.program where
  methods := outlined.methods
  outlines := by
    intro method member
    obtain ⟨place, listed⟩ := List.mem_iff_getElem?.mp member
    rw [List.getElem?_map, Option.map_eq_some_iff] at listed
    obtain ⟨result, there, rfl⟩ := listed
    obtain ⟨_, _, making⟩ := (Holder.made_of_outlines outlined.builds place).1 result there
    exact (Template.of_body_eq_ok making.body).2.2.1
  synthetic := by
    intro method
    rw [outcome_eq]
  others := by
    intro method member rare
    rw [← isChosen_selectionOf_iff (indexed_of_valid valid) member] at rare
    exact if_neg rare
  frequent := by
    intro method frequent
    have member := (mem_plainMethods_iff.mp (List.mem_filter.mp frequent).1).1
    rw [← isChosen_selectionOf_iff (indexed_of_valid valid) member] at frequent
    rw [outcome, if_pos frequent, templatesIn_eq, templatesIn_eq]
    rw [isChosen_selectionOf_iff (indexed_of_valid valid) member] at frequent
    refine ⟨_, (perm_scan_of_frequent valid outlined assigned detached frequent).filterMap _,
      List.filter_sublist.filterMap _, ?_⟩
    intro template listed
    obtain ⟨result, spared, same⟩ := List.mem_filterMap.mp listed
    cases result with
    | error assertion => cases same
    | ok other =>
      cases same
      rw [← outlineFor?_eq_none_iff valid outlined]
      exact Option.isNone_iff_eq_none.mp (List.mem_filter.mp spared).2

theorem allSound_of_outlined (sound : AllSound options program) :
    AllSound options final.program := by
  have depleted := depleted_of_outlined valid outlined assigned detached
  intro method member plain
  rw [depleted.methods, List.mem_append] at member
  rcases member with changed | added
  · obtain ⟨before, there, rfl⟩ := List.mem_map.mp changed
    rw [depleted.synthetic] at plain
    by_cases frequent : before ∈ frequentMethods options program
    · intro result listed
      have chosen := (isChosen_selectionOf_iff (indexed_of_valid valid) there).mpr frequent
      rw [outcome, if_pos chosen] at listed
      have known := (perm_scan_of_frequent valid outlined assigned detached frequent).mem_iff.mp
        (List.mem_map_of_mem listed)
      obtain ⟨other, found, same⟩ := List.mem_map.mp (List.mem_filter.mp known).1
      obtain ⟨candidate, rfl⟩ := sound before there plain other found
      cases result with
      | error assertion => cases same
      | ok candidate => exact ⟨candidate, rfl⟩
    · rw [depleted.others before there frequent]
      exact sound before there plain
  · rw [depleted.outlines method added] at plain
    cases plain

end Outlined

/-- A second run with the same options is idle exactly if outlining is switched off, or in the
program that the first run has left no window breaks an assertion and no template is worthwhile. It
is enough for this that the methods that may be outlined are in single assignment form, and that
nothing depends on the windows that the first run replaces; if something does, it may still turn out
to make no difference. -/
theorem second_run_idle {options : Options} {program : Program} {returned : Option Holder}
    {final : Pipeline} (valid : program.complaint? = none)
    (done : run.run (start options program) = .ok returned final) :
    (IsIdle options final.program ↔ (options.enabled = true →
      AllSound options final.program ∧
        ∀ template, ¬ IsWorthwhile options final.program template)) ∧
    ((∀ method ∈ program.methods, method.synthetic = false → method.SingleAssignment) →
      ReplacesDetached options program → IsIdle options final.program) := by
  cases returned with
  | none =>
    obtain ⟨again, idle, same, _⟩ := isIdle_of_run done
    have unchanged : final.program = program := by
      rw [done] at idle
      cases idle
      exact same
    rw [unchanged]
    exact ⟨isIdle_iff (indexed_of_valid valid), fun _ _ => isIdle_of_run done⟩
  | some holder =>
    have enabled : options.enabled = true := by
      by_contra disabled
      rw [run_of_disabled (Bool.eq_false_iff.mpr disabled)] at done
      cases done
    have sound := allSound_of_run enabled done
    obtain ⟨made, _, outlined⟩ := outlined_of_run sound done
    have indexed := indexed_of_outlined valid outlined
    refine ⟨isIdle_iff indexed, fun assigned detached => (isIdle_iff indexed).mpr fun _ => ?_⟩
    exact ⟨allSound_of_outlined valid outlined assigned detached sound,
      (depleted_of_outlined valid outlined assigned detached).not_isWorthwhile⟩

/-- Options under which a window may read two values. -/
def narrow : Options := { eager with maxArgumentRegisters := 2 }

/-- A method that adds two numbers before it makes an instance from two others. -/
def sumsAndBuilds : Method where
  index := 0
  reference := ⟨⟨"LA;"⟩, "m", ⟨.void, [.int, .int, .int, .int]⟩⟩
  types := [.number .int, .number .int, .number .int, .number .int, .number .int,
    .object ⟨"LB;"⟩ []]
  blocks := [⟨0, [⟨.argument 0, [], some 0, none⟩, ⟨.argument 1, [], some 1, none⟩,
    ⟨.argument 2, [], some 2, none⟩, ⟨.argument 3, [], some 3, none⟩,
    ⟨.arithmetic .add .int, [0, 1], some 4, none⟩, ⟨.allocate ⟨"LB;"⟩, [], some 5, none⟩,
    ⟨.call .direct ⟨⟨"LB;"⟩, "<init>", ⟨.void, [.int, .int]⟩⟩ true, [5, 2, 3], none, none⟩,
    ⟨.ret, [], none, none⟩], [], []⟩]
  synthetic := false

/-- A second run is idle if the windows replaced were detached, but it finds the sum before an
instance once the instance is made elsewhere. -/
theorem exists_runs_idle_and_not_idle :
    (∃ holder final, run.run (start paired ⟨[sumsTwice 0 false]⟩) = .ok (some holder) final ∧
      IsIdle paired final.program) ∧
    ∃ holder final, run.run (start narrow ⟨[sumsAndBuilds]⟩) = .ok (some holder) final ∧
      ¬ IsIdle narrow final.program := by
  constructor
  · have returns : succeeds (fun returned _ => returned.isSome)
        (run.run (start paired ⟨[sumsTwice 0 false]⟩)) = true := by decide +kernel
    have assigned : (sumsTwice 0 false).SingleAssignment :=
      ⟨⟨(sumsTwice 0 false).blocks, .refl _, by decide⟩, by simp [sumsTwice, Method.instructions],
        by simp [sumsTwice, Method.instructions]⟩
    obtain ⟨returned, final, done, some⟩ := exists_of_succeeds returns
    obtain ⟨holder, rfl⟩ := Option.isSome_iff_exists.mp some
    exact ⟨holder, final, done, (second_run_idle (by decide) done).2
      (by simpa using fun _ => assigned) (by decide +kernel)⟩
  · -- the first run leaves the sum alone, since it gives up the window that awaits the constructor
    have returns : succeeds (fun returned final => decide (returned.isSome ∧
        ∃ method ∈ final.program.methods, ∃ template ∈ templatesIn narrow.limits method,
          IsWorthwhile narrow final.program template))
        (run.run (start narrow ⟨[sumsAndBuilds]⟩)) = true := by decide +kernel
    obtain ⟨returned, final, done, checked⟩ := exists_of_succeeds returns
    obtain ⟨some, _, _, template, _, worthwhile⟩ := of_decide_eq_true checked
    obtain ⟨holder, rfl⟩ := Option.isSome_iff_exists.mp some
    refine ⟨holder, final, done, fun idle => ?_⟩
    exact ((second_run_idle (by decide) done).1.mp idle rfl).2 template worthwhile

/-- Options under which every window of two operations gets an outline. -/
def double : Options := { eager with minSize := 2 }

/-- A method that computes a sum and a difference, and refines the sum while it multiplies. Nothing
reads what the refinement writes. -/
def sumsAndRefines : Method where
  index := 0
  reference := ⟨⟨"LA;"⟩, "m", ⟨.int, [.int, .int]⟩⟩
  types := [.number .int, .number .int, .number .int, .number .int, .number .int, .number .int,
    .number .int]
  blocks := [⟨0, [⟨.argument 0, [], some 0, none⟩, ⟨.argument 1, [], some 1, none⟩,
    ⟨.arithmetic .add .int, [0, 1], some 2, none⟩, ⟨.arithmetic .sub .int, [0, 1], some 3, none⟩,
    ⟨.other "nop", [], none, none⟩, ⟨.arithmetic .mul .int, [0, 1], some 4, none⟩,
    ⟨.refine, [2], some 5, none⟩, ⟨.arithmetic .mul .int, [4, 1], some 6, none⟩,
    ⟨.ret, [6], none, none⟩], [], []⟩]
  synthetic := false

/-- A second run may find more although no instance is made: once the product is computed
elsewhere nothing reads the sum, which a window may then overwrite by the difference. -/
theorem exists_run_not_idle_of_unread : sumsAndRefines.SingleAssignment ∧
    (∀ instruction ∈ sumsAndRefines.instructions, instruction.role ≠ .allocation) ∧
    ∃ holder final, run.run (start double ⟨[sumsAndRefines]⟩) = .ok (some holder) final ∧
      ¬ IsIdle double final.program := by
  refine ⟨⟨⟨sumsAndRefines.blocks, .refl _, by decide⟩, by simp [sumsAndRefines, Method.instructions],
    by simp [sumsAndRefines, Method.instructions]⟩, by decide, ?_⟩
  have returns : succeeds (fun returned final => returned.isSome &&
      succeeds (fun again _ => again.isSome) (run.run (start double final.program)))
      (run.run (start double ⟨[sumsAndRefines]⟩)) = true := by decide +kernel
  obtain ⟨returned, final, done, both⟩ := exists_of_succeeds returns
  obtain ⟨some, more⟩ := Bool.and_eq_true_iff.mp both
  obtain ⟨holder, rfl⟩ := Option.isSome_iff_exists.mp some
  refine ⟨holder, final, done, ?_⟩
  rintro ⟨last, again, _⟩
  rw [again] at more
  cases more

end Outlining.Pipeline
