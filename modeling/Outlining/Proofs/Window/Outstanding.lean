import Outlining.Proofs.Window.Liveness
import Outlining.Proofs.Window.Progress

/-! In a body in order, the reads that a window counts for its temporary are those by instructions
outside of it, in any block, of the temporary or of a refinement of it that the window has taken. No
other result of the window is read outside under any of these names. So the instruction ahead never
reads the temporary more often than is counted, and no subtraction is cut off at zero. -/
namespace Outlining.Window

open Outlining.Bytecode

variable {method : Method} {limits : Limits} {past taken future : List Instruction}
  {instruction : Instruction} {window : Window} {value operand : Var}

/-- Adds the result of a refinement whose source is known. -/
def addName (known : List Var) (instruction : Instruction) : List Var :=
  match instruction.refinement? with
  | some (result, source) => if source ∈ known then known ++ [result] else known
  | none => known

/-- The names of a value after some instructions: the value, and the results of those that refine
one of its names. -/
def names (value : Var) (taken : List Instruction) : List Var := taken.foldl addName [value]

/-- The number of operands outside that name a value. -/
def outstanding (value : Var) (taken outside : List Instruction) : Nat :=
  (outside.flatMap (·.operands)).countP fun operand => decide (operand ∈ names value taken)

/-- The reads left of the temporary, if there is one. -/
def readsLeft (window : Window) : Nat := window.temporary.elim 0 (·.readsLeft)

/-- What the counted reads of a window say about the instructions outside of it, of which `ahead`
is the one to be looked at. -/
structure Exact (scope : Scope) (taken outside : List Instruction) (ahead : Option Instruction)
    (window : Window) : Prop where
  /-- The temporary is the result produced last, and each operand outside that names it counts. -/
  counted : ∀ temporary, window.temporary = some temporary →
    lastResult (taken.filter (·.isOperation)) = some temporary.value ∧
      0 < temporary.readsLeft ∧ temporary.readsLeft = outstanding temporary.value taken outside
  /-- Nothing outside reads any other result of the window, or a refinement of it. -/
  unread : ∀ value ∈ results (taken.filter (·.isOperation)), window.temporaryValue ≠ some value →
    ∀ reader ∈ outside, ∀ operand ∈ reader.operands, operand ∉ names value taken
  /-- What is subtracted from the reads left is not more than they are. -/
  whole : ∀ instruction ∈ ahead, window.temporaryReads scope instruction ≤ window.readsLeft

@[simp] theorem names_append_singleton (value : Var) (taken : List Instruction)
    (instruction : Instruction) :
    names value (taken ++ [instruction]) = addName (names value taken) instruction := by
  simp [names]

theorem mem_addName_iff {known : List Var} : operand ∈ addName known instruction ↔
    operand ∈ known ∨ ∃ source ∈ known, instruction.refinement? = some (operand, source) := by
  unfold addName
  split
  · rename_i result source refines
    split
    · rename_i present
      rw [refines, List.mem_append, List.mem_singleton]
      refine or_congr_right ⟨?_, ?_⟩
      · rintro rfl
        exact ⟨source, present, rfl⟩
      · rintro ⟨_, _, same⟩
        exact (Prod.mk.inj (Option.some.inj same)).1.symm
    · rename_i absent
      refine (or_iff_left ?_).symm
      rintro ⟨other, present, same⟩
      rw [refines] at same
      exact absent ((Prod.mk.inj (Option.some.inj same)).2 ▸ present)
  · rename_i plain
    simp [plain]

theorem self_mem_names (value : Var) (taken : List Instruction) : value ∈ names value taken := by
  induction taken using List.reverseRecOn with
  | nil => exact List.mem_singleton_self value
  | append_singleton taken instruction inductionHypothesis =>
    rw [names_append_singleton, mem_addName_iff]
    exact .inl inductionHypothesis

section Arranged

/-- What is read under a name of a value that is its own root has the value as its root. -/
theorem root_of_mem_names (arranged : Arranged method (past ++ taken ++ future))
    (fixed : value ∈ method.reads → (Usage.ofMethod method).root value = value)
    (named : operand ∈ names value taken) (read : operand ∈ method.reads) :
    (operand = value ∨ operand ∈ results taken) ∧
      (Usage.ofMethod method).root operand = value := by
  induction taken using List.reverseRecOn generalizing operand future with
  | nil =>
    obtain rfl := List.mem_singleton.mp named
    exact ⟨.inl rfl, fixed read⟩
  | append_singleton taken instruction inductionHypothesis =>
    have shorter : Arranged method (past ++ taken ++ (instruction :: future)) := by
      simpa using arranged
    rw [names_append_singleton, mem_addName_iff] at named
    rw [results_append, List.mem_append]
    rcases named with named | ⟨source, named, refines⟩
    · obtain ⟨written, stands⟩ := inductionHypothesis shorter named read
      exact ⟨written.imp_right .inl, stands⟩
    · obtain ⟨reads, writes⟩ := operands_of_refinement? refines
      obtain ⟨_, stands⟩ := inductionHypothesis shorter named (shorter.mem_reads (by simp) reads)
      refine ⟨.inr (.inr (mem_results_iff.mpr ⟨instruction, by simp, writes⟩)), ?_⟩
      rw [shorter.root_eq_root read (by simp) refines, stands]

/-- What was written under a root is a name of it, if no value from before has that root. -/
theorem mem_names_of_root (arranged : Arranged method (past ++ taken ++ future))
    (apart : ∀ other ∈ method.reads, (Usage.ofMethod method).root other = value →
      other ∉ results past)
    (written : operand ∈ results taken) (read : operand ∈ method.reads)
    (stands : (Usage.ofMethod method).root operand = value) : operand ∈ names value taken := by
  induction taken using List.reverseRecOn generalizing operand future with
  | nil => cases written
  | append_singleton taken instruction inductionHypothesis =>
    have shorter : Arranged method (past ++ taken ++ (instruction :: future)) := by
      simpa using arranged
    rw [names_append_singleton, mem_addName_iff]
    rw [results_append, List.mem_append] at written
    rcases written with written | here
    · exact .inl (inductionHypothesis shorter written read stands)
    · obtain ⟨_, only, writes⟩ := mem_results_iff.mp here
      obtain rfl := List.mem_singleton.mp only
      cases refines : Instruction.refinement? _ with
      | none =>
        rw [shorter.root_eq_self read (by simp) writes refines] at stands
        exact .inl (stands ▸ self_mem_names operand taken)
      | some refined =>
        obtain ⟨result, source⟩ := refined
        obtain ⟨reads, same⟩ := operands_of_refinement? refines
        obtain rfl := Option.some.inj (writes.symm.trans same)
        rw [shorter.root_eq_root read (by simp) refines] at stands
        have reading := shorter.mem_reads (by simp) reads
        have before := shorter.mem_past reads
        rw [results_append, List.mem_append] at before
        exact .inr ⟨source, inductionHypothesis shorter
          (before.resolve_left (apart source reading stands)) reading stands, rfl⟩

variable (arranged : Arranged method (past ++ taken ++ future))
  (produced : value ∈ results (taken.filter (·.isOperation)))
include arranged produced

/-- The names of a result of a window are the values that the window wrote under its root. -/
theorem mem_names_iff (read : operand ∈ method.reads) : operand ∈ names value taken ↔
    operand ∈ results taken ∧ (Usage.ofMethod method).root operand = value := by
  have written := mem_results_of_operation produced
  constructor
  · intro named
    obtain ⟨writer, member, writes⟩ := mem_results_iff.mp produced
    obtain ⟨inside, operates⟩ := List.mem_filter.mp member
    obtain ⟨same | present, stands⟩ := root_of_mem_names arranged (fun read =>
      arranged.root_eq_self read (by simp [inside]) writes
        (Instruction.refinement?_eq_none operates)) named read
    · exact ⟨same ▸ written, stands⟩
    · exact ⟨present, stands⟩
  · rintro ⟨present, stands⟩
    exact mem_names_of_root arranged
      (fun _ read stands => notMem_past_of_root arranged written read stands) present read stands

theorem outstanding_past : outstanding value taken past = 0 := by
  rw [outstanding, List.countP_eq_zero]
  intro operand listed
  obtain ⟨reader, member, read⟩ := List.mem_flatMap.mp listed
  have reads := arranged.mem_reads (by simp [member]) read
  rw [decide_eq_true_iff, mem_names_iff arranged produced reads]
  rintro ⟨_, stands⟩
  refine notMem_past_of_root arranged (mem_results_of_operation produced) reads stands ?_
  rw [List.append_assoc] at arranged
  exact arranged.mem_results member read

/-- The reads outside of a window are the reads to come. -/
theorem outstanding_eq_left : outstanding value taken (past ++ future) =
    left (Usage.ofMethod method).root taken value future := by
  have early := outstanding_past arranged produced
  unfold outstanding at early ⊢
  rw [List.flatMap_append, List.countP_append, early, Nat.zero_add, left]
  refine List.countP_congr fun operand listed => ?_
  obtain ⟨reader, member, read⟩ := List.mem_flatMap.mp listed
  simpa using mem_names_iff arranged produced (arranged.mem_reads (by simp [member]) read)

end Arranged

/-- The next instruction reads the temporary at most as often as is counted. -/
theorem Grown.temporaryReads_le (grown : Grown (.ofMethod method limits) taken window)
    (arranged : Arranged method (past ++ taken ++ instruction :: future)) :
    window.temporaryReads (.ofMethod method limits) instruction ≤ window.readsLeft := by
  unfold readsLeft
  cases known : window.temporary with
  | none => simp [temporaryReads, readsTemporary, temporaryValue, known]
  | some temporary =>
    have produced := List.mem_of_getLast? (grown.temporary_eq known).1
    have stands : window.temporaryValue = some temporary.value := by simp [temporaryValue, known]
    have all := grown.left_eq arranged produced
    rw [left_cons, countP_root arranged (mem_results_of_operation produced),
      readsOf_of_temporary known] at all
    rw [temporaryReads_eq stands, Option.elim_some, ← all]
    exact Nat.le_add_right _ _

theorem Grown.exact (grown : Grown (.ofMethod method limits) taken window)
    (arranged : Arranged method (past ++ taken ++ future)) :
    Exact (.ofMethod method limits) taken (past ++ future) future.head? window where
  counted := by
    intro temporary known
    obtain ⟨last, some⟩ := grown.temporary_eq known
    have produced := List.mem_of_getLast? last
    refine ⟨last, some, ?_⟩
    rw [outstanding_eq_left arranged produced, grown.left_eq arranged produced,
      readsOf_of_temporary known]
  unread := by
    intro value produced other reader member operand read named
    have none := outstanding_eq_left arranged produced
    rw [grown.left_eq arranged produced, readsOf_eq_zero other, outstanding,
      List.countP_eq_zero] at none
    exact none operand (List.mem_flatMap.mpr ⟨reader, member, read⟩) (decide_eq_true named)
  whole := by
    intro instruction first
    obtain ⟨rest, rfl⟩ := List.head?_eq_some_iff.mp first
    exact grown.temporaryReads_le arranged

/-- The order of the instructions outside does not matter, and there may be none ahead. -/
theorem Exact.of_perm {scope : Scope} {ahead next : Option Instruction}
    {outside others : List Instruction} (exact : Exact scope taken outside ahead window)
    (perm : outside.Perm others) (less : ∀ instruction ∈ next, instruction ∈ ahead) :
    Exact scope taken others next window where
  counted := by
    intro temporary known
    rw [outstanding, ← (perm.flatMap_right (·.operands)).countP_eq]
    exact exact.counted temporary known
  unread := fun value produced other reader member =>
    exact.unread value produced other reader (perm.mem_iff.mpr member)
  whole := fun instruction present => exact.whole instruction (less instruction present)

namespace Scanner

variable {scanner : Scanner} {block : Block} {earlier later : List Block} {stop : Nat}

/-- The place before which the window of a scan has taken its last instruction; `none` if the
window is done with. -/
def reached? (scanner : Scanner) : Option Nat :=
  match scanner.task with
  | .look => some scanner.place
  | .close stop => some stop
  | .restart _ => none

/-- The instructions from the start of the window up to `stop`. -/
def inside (scanner : Scanner) (block : Block) (stop : Nat) : List Instruction :=
  (block.instructions.drop scanner.start).take (stop - scanner.start)

def outside (scanner : Scanner) (earlier : List Block) (block : Block) (later : List Block)
    (stop : Nat) : List Instruction :=
  earlier.flatMap (·.instructions) ++
    (block.instructions.take scanner.start ++ block.instructions.drop stop) ++
    later.flatMap (·.instructions)

theorem Placed.grown {scope : Scope} (placed : Placed scope block scanner)
    (reached : scanner.reached? = some stop) : scanner.start ≤ stop ∧
      Grown scope (scanner.inside block stop) scanner.window := by
  cases placed with
  | look order _ grown =>
    cases reached
    exact ⟨order, grown⟩
  | close order _ grown =>
    cases reached
    exact ⟨Nat.le_of_lt order, grown⟩
  | restart => cases reached

theorem flatMap_blocks (order : scanner.start ≤ stop) :
    (earlier ++ block :: later).flatMap (·.instructions) =
      earlier.flatMap (·.instructions) ++ block.instructions.take scanner.start ++
        scanner.inside block stop ++
          (block.instructions.drop stop ++ later.flatMap (·.instructions)) := by
  have rest : block.instructions.drop stop =
      (block.instructions.drop scanner.start).drop (stop - scanner.start) := by
    rw [List.drop_drop, Nat.add_sub_cancel' order]
  have three : block.instructions = block.instructions.take scanner.start ++
      (scanner.inside block stop ++ block.instructions.drop stop) := by
    rw [inside, rest, List.take_append_drop, List.take_append_drop]
  rw [List.flatMap_append, List.flatMap_cons]
  conv_lhs => rw [three]
  simp only [List.append_assoc]

theorem perm_inside_outside (order : scanner.start ≤ stop) :
    (scanner.inside block stop ++ scanner.outside earlier block later stop).Perm
      ((earlier ++ block :: later).flatMap (·.instructions)) := by
  rw [flatMap_blocks order, outside]
  simpa using List.perm_append_comm_assoc (scanner.inside block stop)
    (earlier.flatMap (·.instructions) ++ block.instructions.take scanner.start)
    (block.instructions.drop stop ++ later.flatMap (·.instructions))

theorem perm_outside {first last : List Block} (order : scanner.start ≤ stop)
    (perm : (first ++ block :: last).Perm (earlier ++ block :: later)) :
    (scanner.outside first block last stop).Perm (scanner.outside earlier block later stop) :=
  (List.perm_append_left_iff (scanner.inside block stop)).mp
    (((perm_inside_outside order).trans (perm.flatMap_right _)).trans
      (perm_inside_outside order).symm)

end Scanner

/-- Between two instructions of a window the count of reads left is exact, whatever the window has
taken and wherever its results are read. What such a scan has found, and finds when its window
grows on, is what is found in the block. -/
theorem reads_left_exact (valid : method.defect? = none) (assigned : method.SingleAssignment)
    (limits : Limits) {earlier later : List Block} {block : Block}
    (blocks : method.blocks = earlier ++ block :: later) {steps : Nat} {founds : List Found}
    {scanner : Scanner} (runs : Scanner.Runs (.ofMethod method limits) block steps founds scanner)
    {stop : Nat} (reached : scanner.reached? = some stop) :
    founds ++ scanner.remaining (.ofMethod method limits) block =
        scanBlock (.ofMethod method limits) block ∧
      (scanner.inside block stop ++ scanner.outside earlier block later stop).Perm
        method.instructions ∧
      Exact (.ofMethod method limits) (scanner.inside block stop)
        (scanner.outside earlier block later stop) block.instructions[stop]? scanner.window := by
  obtain ⟨placed, accounted, _⟩ := runs.accounts
  obtain ⟨order, grown⟩ := placed.grown reached
  have present : block ∈ method.blocks := by simp [blocks]
  refine ⟨accounted, ?_, ?_⟩
  · rw [Method.instructions, blocks]
    exact Scanner.perm_inside_outside order
  · obtain ⟨first, last, perm, arranged⟩ := exists_arranged_block valid assigned present
    rw [blocks] at perm
    have cut : Arranged method (first.flatMap (·.instructions) ++
        block.instructions.take scanner.start ++ scanner.inside block stop ++
          (block.instructions.drop stop ++ last.flatMap (·.instructions))) := by
      rw [← Scanner.flatMap_blocks order]
      simpa using arranged
    refine (grown.exact cut).of_perm ?_ fun instruction ahead => ?_
    · simpa [Scanner.outside] using Scanner.perm_outside order perm
    · rw [Scanner.drop_eq_cons ahead]
      rfl

/-- A method whose first block, to be put behind the second, leaves a sum to the third block under
two names. -/
def leavesSum : Method where
  index := 0
  reference := ⟨⟨"LA;"⟩, "m", ⟨.int, [.int, .int]⟩⟩
  types := List.replicate 5 (.number .int)
  blocks := [⟨0, [⟨.arithmetic .add .int, [0, 1], some 2, none⟩, ⟨.refine, [2], some 3, none⟩,
      ⟨.jump, [], none, none⟩], [2], []⟩,
    ⟨1, [⟨.argument 0, [], some 0, none⟩, ⟨.argument 1, [], some 1, none⟩,
      ⟨.jump, [], none, none⟩], [0], []⟩,
    ⟨2, [⟨.arithmetic .mul .int, [2, 3], some 4, none⟩, ⟨.ret, [4], none, none⟩], [], []⟩]
  synthetic := false

theorem reads_left_of_leavesSum :
    leavesSum.defect? = none ∧ leavesSum.SingleAssignment ∧ ∃ scanner,
      Scanner.Runs (.ofMethod leavesSum ⟨1, 9, 9, false⟩) leavesSum.blocks[0] 2 [] scanner ∧
        scanner.reached? = some 2 ∧ scanner.window.readsLeft = 2 ∧
        Exact (.ofMethod leavesSum ⟨1, 9, 9, false⟩) (scanner.inside leavesSum.blocks[0] 2)
          (scanner.outside [] leavesSum.blocks[0] (leavesSum.blocks.drop 1) 2)
          (some ⟨.jump, [], none, none⟩) scanner.window := by
  have valid : leavesSum.defect? = none := by decide
  have assigned : leavesSum.SingleAssignment :=
    ⟨⟨[leavesSum.blocks[1], leavesSum.blocks[0], leavesSum.blocks[2]], by decide, by decide⟩,
      by simp [leavesSum, Method.instructions], by simp [leavesSum, Method.instructions]⟩
  have one := @Scanner.Runs.step _ _ _ _ _ _ none
    (@Scanner.Runs.start (.ofMethod leavesSum ⟨1, 9, 9, false⟩) leavesSum.blocks[0]) rfl
  have two := @Scanner.Runs.step _ _ _ _ _ _ none one rfl
  exact ⟨valid, assigned, _, two, rfl, by decide,
    (reads_left_exact valid assigned ⟨1, 9, 9, false⟩ rfl two rfl).2.2⟩

end Outlining.Window
