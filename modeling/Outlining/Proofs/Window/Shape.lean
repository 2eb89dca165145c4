import Outlining.Proofs.Window.Replay
import Outlining.Proofs.Window.Separation

/-! The windows found in a block stand in order and apart from one another. Each begins and ends
with an operation, has nothing but operations and what rides along, and is neither smaller nor
larger than the limits allow. Its template has the operations that it covers, one by one. -/
namespace Outlining.Window

open Outlining.Bytecode Outlining.Template

variable {scope : Scope} {block : Block} {label : Label} {start last : Nat}
  {instruction : Instruction} {taken ahead : List Instruction} {window final : Window}
  {found : Found} {founds : List Found} {candidate : Candidate} {limits : Limits}

/-- The instructions of a block that a candidate covers. -/
def Candidate.covered (candidate : Candidate) (block : Block) : List Instruction :=
  (block.instructions.drop candidate.start).take (candidate.stop - candidate.start)

/-- How a candidate stands in its block, under the limits. -/
structure Candidate.StandsIn (candidate : Candidate) (limits : Limits) (block : Block) : Prop where
  label : candidate.block = block.label
  proper : candidate.start < candidate.stop
  inside : candidate.stop ≤ block.instructions.length
  first : ∃ instruction, block.instructions[candidate.start]? = some instruction ∧
    instruction.isOperation = true
  last : ∃ instruction, block.instructions[candidate.stop - 1]? = some instruction ∧
    instruction.isOperation = true
  supported : ∀ instruction ∈ candidate.covered block,
    instruction.isOperation = true ∨ instruction.isTransparent = true
  relocatable : ∀ instruction ∈ candidate.covered block, ∀ kind target relocatable,
    instruction.opcode = .call kind target relocatable → relocatable = true
  operations : ((candidate.covered block).filter (·.isOperation)).map Operation.ofInstruction? =
    candidate.template.operations.map some
  counted : ((candidate.covered block).filter (·.isOperation)).length = candidate.operations
  length : candidate.template.operations.length = candidate.operations
  least : limits.minSize ≤ candidate.operations
  most : candidate.operations ≤ limits.maxSize

/-- The windows found in some instructions stand behind the first of them. -/
theorem Cut.le_start (cut : Cut scope label start ahead founds) :
    ∀ candidate ∈ founds.filterMap (·.toOption), start ≤ candidate.start := by
  intro candidate member
  obtain ⟨found, listed, same⟩ := List.mem_filterMap.mp member
  obtain ⟨before, taken, after, window, _, _, _, _, _, known⟩ := cut.of_mem listed
  cases found with
  | error assertion => cases same
  | ok other =>
    cases same
    rw [(candidate_eq_ok_iff.mp known.symm).2.2]
    exact Nat.le_add_right _ _

/-- The windows found follow one another. -/
theorem Cut.pairwise (cut : Cut scope label start ahead founds) :
    (founds.filterMap (·.toOption)).Pairwise fun left right => left.stop ≤ right.start := by
  induction cut with
  | done => exact .nil
  | pass instruction rest inductionHypothesis => exact inductionHypothesis
  | @close start taken ahead window founds grown begun settled large rest inductionHypothesis =>
    cases closed : Window.candidate scope label start window taken with
    | error assertion => exact inductionHypothesis
    | ok candidate =>
      rw [List.filterMap_cons_some (by rfl)]
      refine .cons (fun other member => ?_) inductionHypothesis
      have stops : candidate.stop = start + (trim taken).length := by
        rw [(candidate_eq_ok_iff.mp closed).2.2]
      have shorter := length_trim_add taken
      have starts := rest.le_start other member
      omega

theorem operations_take_le (window : Window) (scope : Scope) (instruction : Instruction) :
    (window.take scope instruction).operations ≤ window.operations + 1 := by
  unfold Window.take
  cases instruction.role <;> simp

/-- A window that is not full before it grows has no more operations than allowed afterwards. -/
theorem operations_le_of_grow (room : window.operations < scope.limits.maxSize)
    (grew : grow scope window ahead = some (final, last)) :
    final.operations ≤ scope.limits.maxSize := by
  induction ahead generalizing window with
  | nil =>
    obtain ⟨rfl, _⟩ := eq_of_ended grew
    exact Nat.le_of_lt room
  | cons instruction ahead inductionHypothesis =>
    rw [grow] at grew
    split at grew
    · cases grew
    · split at grew
      · have more := operations_take_le window scope instruction
        dsimp only at grew
        split at grew
        · cases grew
          omega
        · rename_i space
          exact inductionHypothesis (Nat.not_le.mp space) grew
      · obtain ⟨rfl, _⟩ := eq_of_ended grew
        exact Nat.le_of_lt room

/-- A window is found where growth has ended, with no instance waiting and large enough. -/
theorem of_close_eq_some
    (closes : (close scope label start ahead window last).1 = some found) :
    window.pending = none ∧ scope.limits.minSize ≤ window.operations ∧
      found = Window.candidate scope label start window (ahead.take (last + 1)) := by
  refine ⟨?_, ?_, (close_of_found closes).2⟩
  all_goals
    unfold close at closes
    split at closes
    · cases closes
    · rename_i settled
      split at closes
      · cases closes
      · rename_i large
        first | exact settled | omega

/-- Every window found has grown from its place on. -/
theorem grew_of_mem_scanAhead (member : found ∈ scanAhead scope label start 0 ahead) :
    ∃ before rest window last, ahead = before ++ rest ∧
      grow scope empty rest = some (window, last) ∧ window.pending = none ∧
      scope.limits.minSize ≤ window.operations ∧
      found = Window.candidate scope label (start + before.length) window
        (rest.take (last + 1)) := by
  induction ahead using scan_induction generalizing start with
  | nil => cases member
  | cons instruction ahead later =>
    have further (skip : Nat) (within : skip ≤ ahead.length)
        (member : found ∈ scanAhead scope label (start + 1 + skip) 0 (ahead.drop skip)) :
        ∃ before rest window last, instruction :: ahead = before ++ rest ∧
          grow scope empty rest = some (window, last) ∧ window.pending = none ∧
          scope.limits.minSize ≤ window.operations ∧
          found = Window.candidate scope label (start + before.length) window
            (rest.take (last + 1)) := by
      obtain ⟨before, rest, window, last, split, grew, settled, large, same⟩ := later skip member
      have count : start + (instruction :: (ahead.take skip ++ before)).length =
          start + 1 + skip + before.length := by
        simp [List.length_take, within]
        omega
      refine ⟨instruction :: (ahead.take skip ++ before), rest, window, last, ?_, grew, settled,
        large, count ▸ same⟩
      rw [List.cons_append, List.append_assoc, ← split, List.take_append_drop]
    cases grew : grow scope empty (instruction :: ahead) with
    | none =>
      rw [scanAhead, grew] at member
      exact further 0 (Nat.zero_le _) member
    | some result =>
      obtain ⟨window, last⟩ := result
      rw [scanAhead_cons_of_some label start grew, List.mem_append, Option.mem_toList] at member
      rcases member with here | beyond
      · obtain ⟨settled, large, same⟩ := of_close_eq_some here
        exact ⟨[], instruction :: ahead, window, last, rfl, grew, settled, large, same⟩
      · have inside := lt_length_of_grow grew
        rw [List.length_cons] at inside
        have passed := closing_le_of_grow grew (instruction :: ahead)
        exact further _ (by omega) beyond

/-- A candidate covers the first part of what its window took, which halted before the rest of the
block. -/
theorem exists_halted (member : .ok candidate ∈ scanBlock scope block) :
    ∃ before taken after window, block.instructions = before ++ taken ++ after ∧ taken ≠ [] ∧
      Closed scope block.label before.length taken window candidate ∧
      Halted scope window after ∧
      (0 < scope.limits.maxSize → window.operations ≤ scope.limits.maxSize) := by
  obtain ⟨before, rest, window, last, split, grew, settled, large, same⟩ :=
    grew_of_mem_scanAhead member
  obtain ⟨taken, after, rfl, grown, count, halted⟩ := Grown.halted_of_grow .start grew
  simp only [List.nil_append, List.length_nil, Nat.zero_add] at grown count
  rw [count, List.take_left, Nat.zero_add] at same
  have begun : taken ≠ [] := by
    rintro rfl
    cases count
  refine ⟨before, taken, after, window, ?_, begun, .of_candidate grown settled large same.symm,
    halted, fun room => operations_le_of_grow (show empty.operations < _ from room) grew⟩
  rw [split, List.append_assoc]

theorem Grown.exists_head (grown : Grown scope taken window) (begun : taken ≠ []) :
    ∃ first rest, trim taken = first :: rest ∧ first.isOperation = true := by
  obtain ⟨first, others, rfl⟩ := List.exists_cons_of_ne_nil begun
  have operates := (admits_iff.mp grown.admits_head).operates
  have whole := trim_append_trailing (first :: others)
  cases kept : trim (first :: others) with
  | nil =>
    rw [kept, List.nil_append] at whole
    have transparent := @transparent_of_mem_trailing (first :: others) first (by simp [whole])
    rw [Instruction.isTransparent_eq_false operates] at transparent
    cases transparent
  | cons other rest =>
    rw [kept, List.cons_append] at whole
    obtain ⟨rfl, _⟩ := List.cons.inj whole
    exact ⟨other, rest, rfl, operates⟩

theorem Closed.covered_eq {before after : List Instruction}
    (split : block.instructions = before ++ taken ++ after)
    (closed : Closed scope label before.length taken window candidate) :
    candidate.covered block = trim taken := by
  rw [Candidate.covered, split, closed.same]
  simp only [Nat.add_sub_cancel_left]
  exact drop_take_trim

theorem Closed.map_operations (closed : Closed scope label start taken window candidate) :
    ((trim taken).filter (·.isOperation)).map Operation.ofInstruction? =
      candidate.template.operations.map some := by
  rw [closed.same, operations_template, filter_isOperation_trim, List.map_map]
  exact List.map_congr_left fun instruction member =>
    ofInstruction?_eq (List.mem_filter.mp member).2

theorem Closed.standsIn {before after : List Instruction}
    (split : block.instructions = before ++ taken ++ after) (begun : taken ≠ [])
    (closed : Closed scope block.label before.length taken window candidate)
    (within : window.operations ≤ scope.limits.maxSize) :
    candidate.StandsIn scope.limits block := by
  have starts : candidate.start = before.length := by rw [closed.same]
  have stops : candidate.stop = before.length + (trim taken).length := by rw [closed.same]
  have operations : candidate.operations = window.operations := by rw [closed.same]
  have covered := closed.covered_eq split
  have whole : block.instructions = before ++ (trim taken ++ (trailing taken ++ after)) := by
    rw [split, split_trim, List.append_assoc]
  obtain ⟨first, rest, begins, leads⟩ := closed.grown.exists_head begun
  have size : (trim taken).length = rest.length + 1 := by rw [begins, List.length_cons]
  have counted : ((trim taken).filter (·.isOperation)).length = candidate.operations := by
    rw [filter_isOperation_trim, ← closed.grown.operations_eq, operations]
  have same := congrArg List.length closed.map_operations
  rw [List.length_map, List.length_map] at same
  constructor
  case label => rw [closed.same]
  case proper => omega
  case inside =>
    rw [whole, List.length_append, List.length_append]
    omega
  case first =>
    refine ⟨first, ?_, leads⟩
    rw [whole, starts, List.getElem?_append_right (Nat.le_refl _), begins, Nat.sub_self]
    rfl
  case last =>
    obtain ⟨last, ends, operates⟩ :=
      exists_last closed.grown (closed.grown.operations_pos begun)
    refine ⟨last, ?_, operates⟩
    rw [whole, List.getElem?_append_right (by omega), List.getElem?_append_left (by omega),
      ← ends, List.getLast?_eq_getElem?]
    congr 1
    omega
  case supported =>
    rw [covered]
    exact fun instruction member => closed.grown.operates_or_transparent (mem_of_mem_trim member)
  case relocatable =>
    rw [covered]
    exact fun instruction member kind target relocatable opcode =>
      closed.grown.relocatable (mem_of_mem_trim member) opcode
  case operations => rw [covered, closed.map_operations]
  case counted => rw [covered, counted]
  case length => rw [← same, counted]
  case least => exact operations ▸ closed.large
  case most => exact operations ▸ within

/-- The candidates of a block stand in it one after the other, and each as the limits ask. -/
theorem candidates_stand_in_block {limits : Limits} (some : 1 ≤ limits.minSize)
    (order : limits.minSize ≤ limits.maxSize) (method : Method) (block : Block) :
    ((scanBlock (.ofMethod method limits) block).filterMap (·.toOption)).Pairwise
      (fun left right => left.stop ≤ right.start) ∧
    ∀ candidate, .ok candidate ∈ scanBlock (.ofMethod method limits) block →
      candidate.StandsIn limits block := by
  refine ⟨(cut_scanBlock _ block).pairwise, fun candidate member => ?_⟩
  obtain ⟨before, taken, after, window, split, begun, closed, _, within⟩ := exists_halted member
  exact closed.standsIn split begun (within (Nat.le_trans some order))

/-- A method with a window that is full and one that ends before a literal. -/
def fillsWindow : Method where
  index := 0
  reference := ⟨⟨"LA;"⟩, "m", ⟨.int, [.int, .int]⟩⟩
  types := List.replicate 9 (.number .int)
  blocks := [⟨0, [⟨.argument 0, [], some 0, none⟩, ⟨.argument 1, [], some 1, none⟩,
    ⟨.arithmetic .add .int, [0, 1], some 2, none⟩, ⟨.literal (.int 7), [], some 3, none⟩,
    ⟨.arithmetic .mul .int, [2, 3], some 4, none⟩, ⟨.arithmetic .sub .int, [4, 1], some 5, none⟩,
    ⟨.refine, [5], some 6, none⟩,
    ⟨.call .static ⟨⟨"LA;"⟩, "f", ⟨.int, [.int]⟩⟩ true, [6], some 7, none⟩,
    ⟨.literal (.int 9), [], some 8, none⟩, ⟨.ret, [7], none, none⟩], [], []⟩]
  synthetic := false

theorem candidates_of_fillsWindow :
    1 ≤ 1 ∧ 1 ≤ 3 ∧ ∃ block ∈ fillsWindow.blocks, ∃ founds,
      scanBlock (.ofMethod fillsWindow ⟨1, 3, 9, false⟩) block = founds ∧
      founds.map (fun found => found.toOption.map fun candidate => (candidate.start, candidate.stop)) =
        [some (2, 6), some (7, 8)] ∧
      (founds.filterMap (·.toOption)).Pairwise (fun left right => left.stop ≤ right.start) ∧
      ∀ candidate, .ok candidate ∈ founds → candidate.StandsIn ⟨1, 3, 9, false⟩ block := by
  refine ⟨Nat.le_refl 1, by decide, _, List.mem_singleton_self _, _, rfl, by decide, ?_⟩
  exact @candidates_stand_in_block ⟨1, 3, 9, false⟩ (Nat.le_refl 1) (by decide) _ _

end Outlining.Window
