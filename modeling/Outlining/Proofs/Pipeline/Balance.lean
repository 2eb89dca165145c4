import Outlining.Proofs.Pipeline.Flow
import Outlining.Proofs.Pipeline.Tally
import Outlining.Proofs.Rewriting.Size

/-! A run reports what it took away with the windows. A method is smaller by that number if no block
of it was divided. Where a guarded block goes on behind a window, the block is divided there, and
the jump that is added for this is not reported. -/
namespace Outlining.Pipeline

open Outlining.Bytecode Outlining.Rewriting Outlining.Window

variable {options : Options} {program : Program} {outlines : List Outline} {limits : Limits}
  {method : Method} {methods : List Method} {block : Block} {final : Pipeline}
  {returned : Option Holder} {made : List (Outline × Method)}

def totalSize (methods : List Method) : Nat := (methods.map Method.size).sum

theorem totalSize_cons (method : Method) (methods : List Method) :
    totalSize (method :: methods) = method.size + totalSize methods := List.sum_cons

/-- Whether a window stands in a guarded block that goes on behind it. -/
def dividesBlock (method : Method) (candidate : Candidate) : Bool :=
  method.blocks[candidate.block]?.any fun block =>
    block.isGuarded && decide (candidate.stop < block.instructions.length)

/-- The windows with one of the templates behind which a block is divided. -/
def divisionsIn (limits : Limits) (templates : List Template) (method : Method) : List Candidate :=
  (windowsWith limits templates method).filter (dividesBlock method)

/-- The windows replaced by a run behind which a block is divided. -/
def divisions (options : Options) (program : Program) : List Candidate :=
  if options.enabled then
    (frequentMethods options program).flatMap
      (divisionsIn options.limits (templateList options program))
  else []

def removedWith (outlines : List Outline) (limits : Limits) (method : Method) : List Instruction :=
  removedFrom (editsFor outlines limits method) method

section Method

variable (valid : method.defect? = none)
include valid

theorem size_rewritten (outlines : List Outline) (limits : Limits) :
    (rewritten outlines limits method).size + (removedWith outlines limits method).length =
      method.size + (method.blocks.map (jumpsIn (editsFor outlines limits method))).sum := by
  rw [rewritten_eq_apply]
  exact size_apply (labelled_of_valid valid) _ (spans_replaced outlines limits method)
    fun block => exists_spliced_editsOf valid outlines limits

theorem jumpsIn_editsFor (builds : Builds options program made) (limits : Limits)
    (present : block ∈ method.blocks) :
    jumpsIn (editsFor (made.map (·.1)) limits method) block =
      (((foundIn limits method block).filter fun candidate =>
        (templateList options program).contains candidate.template).filter
          (dividesBlock method)).length := by
  have here {candidate : Candidate} (listed : candidate ∈ foundIn limits method block) :
      dividesBlock method candidate =
        (block.isGuarded && decide (candidate.stop < block.instructions.length)) := by
    rw [dividesBlock, block_of_mem_foundIn listed, (labelled_of_valid valid).getElem? present]
    rfl
  rw [jumpsIn, editsOf_editsFor (labelled_of_valid valid) present,
    List.filter_congr fun candidate listed => here (List.mem_filter.mp listed).1,
    ← map_snd_hits builds]
  cases block.isGuarded with
  | false => simp
  | true =>
    rw [← List.countP_eq_length_filter, List.countP_map, List.countP_map]
    rfl

theorem sum_jumpsIn (builds : Builds options program made) (limits : Limits) :
    (method.blocks.map (jumpsIn (editsFor (made.map (·.1)) limits method))).sum =
      (divisionsIn limits (templateList options program) method).length := by
  rw [divisionsIn, windowsWith, found_eq, List.filter_flatMap, List.filter_flatMap,
    List.length_flatMap]
  apply congrArg
  apply List.map_congr_left
  intro block present
  exact jumpsIn_editsFor valid builds limits present

end Method

/-- What is removed from the methods selected is missing in the end, but for the jumps. -/
theorem totalSize_outcome (valid : ∀ method ∈ methods, method.defect? = none)
    (builds : Builds options program made) (limits : Limits) (selection : List MethodIndex) :
    totalSize (methods.map (outcome (made.map (·.1)) limits selection)) +
        ((methods.filter (isChosen selection)).flatMap
          (removedWith (made.map (·.1)) limits)).length =
      totalSize methods + ((methods.filter (isChosen selection)).flatMap
        (divisionsIn limits (templateList options program))).length := by
  induction methods with
  | nil => rfl
  | cons method methods inductionHypothesis =>
    obtain ⟨first, others⟩ := List.forall_mem_cons.mp valid
    have rest := inductionHypothesis others
    have size := size_rewritten first (made.map (·.1)) limits
    rw [sum_jumpsIn first builds] at size
    rw [List.map_cons, totalSize_cons, totalSize_cons]
    cases chosen : isChosen selection method with
    | true =>
      rw [outcome, if_pos chosen, List.filter_cons_of_pos chosen, List.flatMap_cons,
        List.flatMap_cons, List.length_append, List.length_append]
      omega
    | false =>
      have unchosen : ¬ isChosen selection method = true := by simp [chosen]
      rw [outcome, if_neg unchosen, List.filter_cons_of_neg unchosen]
      omega

theorem instructionsRemoved_foldl_tally (outlines : List Outline) (limits : Limits)
    (methods : List Method) (statistics : Statistics) :
    (methods.foldl (tally outlines limits) statistics).instructionsRemoved =
      statistics.instructionsRemoved + (methods.flatMap (removedWith outlines limits)).length := by
  induction methods generalizing statistics with
  | nil => rfl
  | cons method methods inductionHypothesis =>
    rw [List.foldl_cons, inductionHypothesis, List.flatMap_cons, List.length_append,
      ← Nat.add_assoc]
    rfl

theorem instructionsRemoved_tallied (indexed : Indexed program) :
    (tallied options program made).instructionsRemoved =
      ((frequentMethods options program).flatMap
        (removedWith (made.map (·.1)) options.limits)).length := by
  rw [tallied, instructionsRemoved_foldl_tally, chosen_selectionOf indexed, counted]
  exact Nat.zero_add _

/-- What a run reports, what its methods have lost, and the jumps added balance. -/
theorem balance_of_finished (valid : program.complaint? = none)
    (finished : Finished options program made returned final) :
    totalSize (final.program.methods.take program.methods.length) +
        final.statistics.instructionsRemoved =
      totalSize program.methods + ((frequentMethods options program).flatMap
        (divisionsIn options.limits (templateList options program))).length := by
  have indexed := indexed_of_valid valid
  have sizes := totalSize_outcome (fun _ member => valid_of_mem valid member) finished.builds
    options.limits (selectionOf options program)
  rw [← chosen, chosen_selectionOf indexed] at sizes
  rw [finished.methods, List.take_left' (List.length_map _), finished.statistics,
    instructionsRemoved_tallied indexed]
  exact sizes

theorem balance_of_run (valid : program.complaint? = none)
    (done : run.run (start options program) = .ok returned final) :
    totalSize (final.program.methods.take program.methods.length) +
        final.statistics.instructionsRemoved =
      totalSize program.methods + (divisions options program).length := by
  cases enabled : options.enabled with
  | false =>
    rw [run_of_disabled enabled] at done
    cases done
    simp [divisions, enabled, start, Statistics.zero]
  | true =>
    obtain ⟨made, finished⟩ := finished_of_run enabled done
    rw [divisions, if_pos enabled]
    exact balance_of_finished valid finished

/-- After a run, the methods that were in the program have lost the instructions reported as
removed, and gained one jump for each window behind which a guarded block is divided. So the number
reported is the net number exactly if no block is divided. -/
theorem instructionsRemoved_eq_iff (valid : program.complaint? = none)
    (done : run.run (start options program) = .ok returned final) :
    totalSize (final.program.methods.take program.methods.length) +
        final.statistics.instructionsRemoved =
      totalSize program.methods + (divisions options program).length ∧
    ((final.statistics.instructionsRemoved : Int) = totalSize program.methods -
        totalSize (final.program.methods.take program.methods.length) ↔
      divisions options program = []) := by
  have balance := balance_of_run valid done
  refine ⟨balance, ?_⟩
  rw [← List.length_eq_zero_iff]
  omega

/-- A guarded method with one window, behind which it goes on. -/
def scalesGuarded : Method where
  index := 0
  reference := ⟨⟨"LA;"⟩, "m", ⟨.int, [.int, .int]⟩⟩
  types := List.replicate 5 (.number .int)
  blocks := [⟨0, [⟨.argument 0, [], some 0, none⟩, ⟨.argument 1, [], some 1, none⟩,
    ⟨.arithmetic .add .int, [0, 1], some 2, none⟩, ⟨.arithmetic .mul .int, [2, 1], some 3, none⟩,
    ⟨.arithmetic .sub .int, [3, 0], some 4, none⟩, ⟨.ret, [4], none, none⟩], [], [⟨.object, 1⟩]⟩,
    ⟨1, [⟨.ret, [0], none, none⟩], [], []⟩]
  synthetic := false

/-- Two instructions are reported as removed, but the method has become smaller by one only. -/
theorem exists_run_scalesGuarded : ∃ returned final,
    run.run (start eager ⟨[scalesGuarded]⟩) = .ok returned final ∧
      final.statistics.instructionsRemoved = 2 ∧ totalSize [scalesGuarded] = 7 ∧
      totalSize (final.program.methods.take 1) = 6 ∧
      (divisions eager ⟨[scalesGuarded]⟩).length = 1 ∧
      ¬ (final.statistics.instructionsRemoved : Int) =
        totalSize [scalesGuarded] - totalSize (final.program.methods.take 1) := by
  have returns : succeeds (fun _ final => final.statistics.instructionsRemoved == 2 &&
      totalSize (final.program.methods.take 1) == 6)
      (run.run (start eager ⟨[scalesGuarded]⟩)) = true := by decide +kernel
  obtain ⟨returned, final, done, checked⟩ := exists_of_succeeds returns
  obtain ⟨removed, after⟩ := Bool.and_eq_true_iff.mp checked
  have removed := beq_iff_eq.mp removed
  have after := beq_iff_eq.mp after
  have before : totalSize [scalesGuarded] = 7 := by decide
  obtain ⟨balance, _⟩ := instructionsRemoved_eq_iff (by decide) done
  have balance : 6 + 2 = 7 + (divisions eager ⟨[scalesGuarded]⟩).length := by
    rw [← after, ← removed, ← before]
    exact balance
  refine ⟨returned, final, done, removed, before, after, by omega, ?_⟩
  rw [removed, before, after]
  decide

end Outlining.Pipeline
