import Mathlib.Data.List.Induction
import Outlining.Proofs.Window.Operation
import Outlining.Window.Candidate

/-! The scan of a block cuts the block into runs of instructions: those that a window has taken up
to its end, and those passed over. Whatever holds of the empty window and survives the taking of one
instruction holds of every window that a scan closes. -/
namespace Outlining.Window

open Outlining.Bytecode Outlining.Template

variable {scope : Scope} {taken ahead : List Instruction} {instruction : Instruction}
  {window final : Window} {label : Label} {start place : Nat} {founds : List Found}
  {candidate : Candidate}

/-- The windows that growth passes through, with the instructions each of them has taken. -/
inductive Grown (scope : Scope) : List Instruction → Window → Prop where
  | start : Grown scope [] empty
  | literal {taken : List Instruction} {window : Window} {instruction : Instruction}
      (grown : Grown scope taken window) (begun : taken ≠ [])
      (role : instruction.role = .literal) :
      Grown scope (taken ++ [instruction]) { window with taken := window.taken + 1 }
  | refinement {taken : List Instruction} {window : Window} {instruction : Instruction}
      (grown : Grown scope taken window) (begun : taken ≠ [])
      (role : instruction.role = .refinement) :
      Grown scope (taken ++ [instruction])
        { window.takeRefinement scope instruction with taken := window.taken + 1 }
  | operation {taken : List Instruction} {window : Window} {instruction : Instruction}
      (grown : Grown scope taken window) (operates : instruction.isOperation = true)
      (admitted : window.admits scope instruction = true) :
      Grown scope (taken ++ [instruction])
        { window.takeOperation scope instruction with taken := window.taken + 1 }

theorem take_literal (window : Window) (scope : Scope) (role : instruction.role = .literal) :
    window.take scope instruction = { window with taken := window.taken + 1 } := by
  simp [Window.take, role]

theorem take_refinement (window : Window) (scope : Scope)
    (role : instruction.role = .refinement) :
    window.take scope instruction =
      { window.takeRefinement scope instruction with taken := window.taken + 1 } := by
  simp [Window.take, role]

theorem take_operation (window : Window) (scope : Scope)
    (operates : instruction.isOperation = true) :
    window.take scope instruction =
      { window.takeOperation scope instruction with taken := window.taken + 1 } := by
  rcases Instruction.isOperation_cases operates with role | role | role <;>
    simp [Window.take, role]

/-- What a window asks of an operation. -/
structure Admitted (window : Window) (scope : Scope) (instruction : Instruction) : Prop where
  operates : instruction.isOperation = true
  keeps : window.overwrites scope instruction = false
  constructs : window.constructsPending scope instruction = true
  fits : instruction.role ≠ .allocation → window.fits scope instruction = true
  moves : ∀ kind target relocatable, instruction.opcode = .call kind target relocatable →
    window.callMoves kind target relocatable = true

theorem admits_iff : window.admits scope instruction = true ↔
    Admitted window scope instruction := by
  constructor
  · intro admitted
    simp only [admits, Bool.and_eq_true, Bool.not_eq_true'] at admitted
    obtain ⟨⟨keeps, constructs⟩, rest⟩ := admitted
    split at rest
    · rename_i role
      obtain ⟨_, _, allocates, _⟩ := Instruction.role_eq_allocation_iff.mp role
      exact ⟨by simp [Instruction.isOperation, role, Role.isOperation], keeps, constructs,
        fun other => absurd role other, by simp [allocates]⟩
    · rename_i role
      obtain ⟨_, _, _, _, _, computes, _⟩ := Instruction.role_eq_arithmetic_iff.mp role
      exact ⟨by simp [Instruction.isOperation, role, Role.isOperation], keeps, constructs,
        fun _ => rest, by simp [computes]⟩
    · rename_i role opcode
      rw [Bool.and_eq_true] at rest
      refine ⟨by simp [Instruction.isOperation, role, Role.isOperation], keeps, constructs,
        fun _ => rest.2, ?_⟩
      intro kind target relocatable same
      cases opcode.symm.trans same
      exact rest.1
    · cases rest
  · intro admitted
    simp only [admits, admitted.keeps, admitted.constructs, Bool.not_false, Bool.true_and]
    rcases Instruction.isOperation_cases admitted.operates with role | role | role
    · simp [role, admitted.fits]
    · rw [role]
    · obtain ⟨kind, target, relocatable, opcode, _⟩ := Instruction.role_eq_call_iff.mp role
      simp [role, opcode, admitted.moves kind target relocatable opcode, admitted.fits]

theorem Grown.taken_eq (grown : Grown scope taken window) : window.taken = taken.length := by
  induction grown with
  | start => rfl
  | literal _ _ _ inductionHypothesis => simp [inductionHypothesis]
  | refinement _ _ _ inductionHypothesis => simp [inductionHypothesis]
  | operation _ _ _ inductionHypothesis => simp [inductionHypothesis]

theorem Grown.ride (grown : Grown scope taken window) (begun : taken ≠ [])
    (transparent : instruction.isTransparent = true) :
    Grown scope (taken ++ [instruction]) (window.take scope instruction) := by
  rcases Instruction.isTransparent_cases transparent with role | role
  · rw [take_literal _ _ role]
    exact .literal grown begun role
  · rw [take_refinement _ _ role]
    exact .refinement grown begun role

theorem Grown.operate (grown : Grown scope taken window)
    (admitted : window.admits scope instruction = true) :
    Grown scope (taken ++ [instruction]) (window.take scope instruction) := by
  have operates := (admits_iff.mp admitted).operates
  rw [take_operation _ _ operates]
  exact .operation grown operates admitted

theorem Grown.accept (grown : Grown scope taken window)
    (notFirst : ¬ (instruction.isTransparent && window.taken == 0) = true)
    (accepted : (instruction.isTransparent || window.admits scope instruction) = true) :
    Grown scope (taken ++ [instruction]) (window.take scope instruction) := by
  rcases Bool.or_eq_true_iff.mp accepted with transparent | admitted
  · refine grown.ride ?_ transparent
    rintro rfl
    simp [transparent, grown.taken_eq] at notFirst
  · exact grown.operate admitted

private theorem Grown.dropLast (grown : Grown scope (taken ++ [instruction]) window) :
    ∃ before, Grown scope taken before := by
  generalize whole : taken ++ [instruction] = all at grown
  cases grown with
  | start => simp at whole
  | literal earlier | refinement earlier | operation earlier =>
    obtain ⟨rfl, _⟩ := List.append_inj' whole rfl
    exact ⟨_, earlier⟩

/-- Growth has passed through a window over the first part of what was taken. -/
theorem Grown.init {more : List Instruction} (grown : Grown scope (taken ++ more) window) :
    ∃ before, Grown scope taken before := by
  induction more using List.reverseRecOn generalizing window with
  | nil => exact ⟨window, by simpa using grown⟩
  | append_singleton more instruction inductionHypothesis =>
    rw [← List.append_assoc] at grown
    obtain ⟨before, earlier⟩ := grown.dropLast
    exact inductionHypothesis earlier

theorem eq_of_ended (ended : window.ended = some (final, place)) :
    final = window ∧ place + 1 = window.taken := by
  unfold Window.ended at ended
  split at ended
  · cases ended
  · rename_i taken
    cases ended
    exact ⟨rfl, taken.symm⟩

/-- Why a window takes nothing of the instructions ahead: none is left, it is full, or it refuses
the first of them. -/
inductive Halted (scope : Scope) (window : Window) : List Instruction → Prop where
  | done : Halted scope window []
  | full {ahead : List Instruction} (full : scope.limits.maxSize ≤ window.operations) :
      Halted scope window ahead
  | refused {instruction : Instruction} {ahead : List Instruction}
      (solid : instruction.isTransparent = false)
      (refused : window.admits scope instruction = false) :
      Halted scope window (instruction :: ahead)

/-- Growth takes a first part of the instructions ahead, and halts before the others. -/
theorem Grown.halted_of_grow (grown : Grown scope taken window)
    (result : grow scope window ahead = some (final, place)) :
    ∃ more rest, ahead = more ++ rest ∧ Grown scope (taken ++ more) final ∧
      place + 1 = taken.length + more.length ∧ Halted scope final rest := by
  induction ahead generalizing taken window with
  | nil =>
    obtain ⟨rfl, count⟩ := eq_of_ended result
    exact ⟨[], [], rfl, by simpa using grown, by simp [count, grown.taken_eq], .done⟩
  | cons instruction ahead inductionHypothesis =>
    rw [grow] at result
    split at result
    · cases result
    · rename_i notFirst
      split at result
      · rename_i accepted
        have next := grown.accept notFirst accepted
        dsimp only at result
        split at result
        · rename_i full
          cases result
          exact ⟨[instruction], ahead, rfl, next, by simp [grown.taken_eq], .full full⟩
        · obtain ⟨more, rest, split, further, count, halted⟩ := inductionHypothesis next result
          refine ⟨instruction :: more, rest, by simp [split], by simpa using further, ?_, halted⟩
          simp at count ⊢
          omega
      · rename_i rejected
        simp only [Bool.or_eq_true, not_or, Bool.not_eq_true] at rejected
        obtain ⟨rfl, count⟩ := eq_of_ended result
        exact ⟨[], instruction :: ahead, rfl, by simpa using grown, by simp [count, grown.taken_eq],
          .refused rejected.1 rejected.2⟩

theorem Grown.of_grow (grown : Grown scope taken window)
    (result : grow scope window ahead = some (final, place)) :
    ∃ more rest, ahead = more ++ rest ∧ Grown scope (taken ++ more) final ∧
      place + 1 = taken.length + more.length := by
  obtain ⟨more, rest, split, further, count, _⟩ := grown.halted_of_grow result
  exact ⟨more, rest, split, further, count⟩

/-- How a scan cuts the instructions from `start` on: it passes over one, or closes a window over
the next ones. -/
inductive Cut (scope : Scope) (label : Label) : Nat → List Instruction → List Found → Prop where
  | done (start : Nat) : Cut scope label start [] []
  | pass {start : Nat} {ahead : List Instruction} {founds : List Found}
      (instruction : Instruction) (rest : Cut scope label (start + 1) ahead founds) :
      Cut scope label start (instruction :: ahead) founds
  | close {start : Nat} {taken ahead : List Instruction} {window : Window}
      {founds : List Found} (grown : Grown scope taken window) (begun : taken ≠ [])
      (settled : window.pending = none) (large : scope.limits.minSize ≤ window.operations)
      (rest : Cut scope label (start + taken.length) ahead founds) :
      Cut scope label start (taken ++ ahead) (Window.candidate scope label start window taken :: founds)

private theorem Cut.of_nil (cut : Cut scope label start [] founds) : founds = [] := by
  generalize none : ([] : List Instruction) = ahead at cut
  cases cut with
  | done => rfl
  | pass => cases none
  | close _ begun => exact absurd (List.append_eq_nil_iff.mp none.symm).1 begun

theorem Cut.pass_over (skip : Nat) (rest : Cut scope label (start + skip) (ahead.drop skip) founds) :
    Cut scope label start ahead founds := by
  induction skip generalizing start ahead with
  | zero => simpa using rest
  | succ skip inductionHypothesis =>
    cases ahead with
    | nil =>
      rw [List.drop_nil] at rest
      rw [rest.of_nil]
      exact .done start
    | cons instruction ahead =>
      refine .pass instruction (inductionHypothesis ?_)
      simpa [Nat.add_assoc, Nat.add_comm 1 skip] using rest

/-- The scan of the instructions ahead cuts them. -/
theorem cut_scanAhead (scope : Scope) (label : Label) (start : Nat) (ahead : List Instruction) :
    Cut scope label start ahead (scanAhead scope label start 0 ahead) := by
  induction size : ahead.length using Nat.strongRecOn generalizing start ahead with
  | ind size inductionHypothesis =>
    cases ahead with
    | nil => exact .done start
    | cons instruction ahead =>
      simp only [List.length_cons] at size
      have later (skip : Nat) : Cut scope label (start + 1 + skip) (ahead.drop skip)
          (scanAhead scope label (start + 1) skip ahead) := by
        rw [scanAhead_skip]
        exact inductionHypothesis _ (by simp; omega) _ _ rfl
      rw [scanAhead]
      cases grew : grow scope empty (instruction :: ahead) with
      | none => exact .pass instruction (later 0)
      | some result =>
        obtain ⟨window, last⟩ := result
        obtain ⟨taken, rest, split, grown, count⟩ := Grown.of_grow .start grew
        simp only [List.nil_append, List.length_nil, Nat.zero_add] at grown count
        simp only [close]
        split
        · exact .pass instruction (.pass_over _ (later _))
        · rename_i settled
          split
          · exact .pass instruction (later 0)
          · rename_i large
            have begun : taken ≠ [] := by
              rintro rfl
              simp at count
            have first : (instruction :: ahead).take (last + 1) = taken := by
              rw [split, count, List.take_left]
            have remaining : ahead.drop last = rest := by
              rw [← List.drop_succ_cons (a := instruction), split, count, List.drop_left]
            have next := later last
            rw [remaining] at next
            simp only [Option.toList_some, List.singleton_append, first]
            rw [split]
            refine .close grown begun settled (by omega) ?_
            simpa [← count, Nat.add_assoc, Nat.add_comm 1 last] using next

/-- A window found was closed over a run of the instructions. -/
theorem Cut.of_mem {found : Found} (cut : Cut scope label start ahead founds)
    (member : found ∈ founds) :
    ∃ before taken after window, ahead = before ++ taken ++ after ∧
      Grown scope taken window ∧ taken ≠ [] ∧ window.pending = none ∧
      scope.limits.minSize ≤ window.operations ∧
      found = Window.candidate scope label (start + before.length) window taken := by
  induction cut with
  | done => cases member
  | pass instruction rest inductionHypothesis =>
    obtain ⟨before, taken, after, window, split, grown, begun, settled, large, same⟩ :=
      inductionHypothesis member
    refine ⟨instruction :: before, taken, after, window, by simp [split], grown, begun, settled,
      large, ?_⟩
    simpa [Nat.add_assoc, Nat.add_comm 1] using same
  | @close start taken ahead window founds grown begun settled large rest inductionHypothesis =>
    rcases List.mem_cons.mp member with rfl | member
    · exact ⟨[], taken, ahead, window, by simp, grown, begun, settled, large, rfl⟩
    · obtain ⟨before, others, after, other, split, grown, begun, settled, large, same⟩ :=
        inductionHypothesis member
      refine ⟨taken ++ before, others, after, other, by simp [split], grown, begun, settled, large,
        ?_⟩
      simpa [Nat.add_assoc] using same

/-- The transparent instructions at the end, which the trimming of a window takes away. -/
def trailing (instructions : List Instruction) : List Instruction :=
  (instructions.reverse.takeWhile (·.isTransparent)).reverse

theorem trim_append_trailing (instructions : List Instruction) :
    trim instructions ++ trailing instructions = instructions := by
  rw [trim, trailing, ← List.reverse_append, List.takeWhile_append_dropWhile, List.reverse_reverse]

theorem length_trim_add (instructions : List Instruction) :
    (trim instructions).length + (trailing instructions).length = instructions.length := by
  rw [← List.length_append, trim_append_trailing]

/-- A run of instructions around a window, divided where trimming ends the window. -/
theorem split_trim (before taken after : List Instruction) :
    before ++ taken ++ after = (before ++ trim taken) ++ (trailing taken ++ after) := by
  rw [← List.append_assoc, List.append_assoc before (trim taken), trim_append_trailing]

theorem mem_of_mem_trim (member : instruction ∈ trim taken) : instruction ∈ taken := by
  rw [← trim_append_trailing taken]
  exact List.mem_append_left _ member

/-- Trimming commutes with changes that keep transparent instructions transparent. -/
theorem trim_map {change : Instruction → Instruction}
    (same : ∀ instruction ∈ taken, (change instruction).isTransparent = instruction.isTransparent) :
    trim (taken.map change) = (trim taken).map change := by
  have within (instructions : List Instruction)
      (same : ∀ instruction ∈ instructions,
        (change instruction).isTransparent = instruction.isTransparent) :
      (instructions.map change).dropWhile (·.isTransparent) =
        (instructions.dropWhile (·.isTransparent)).map change := by
    induction instructions with
    | nil => rfl
    | cons instruction instructions inductionHypothesis =>
      have rest :=
        inductionHypothesis fun other member => same other (List.mem_cons_of_mem _ member)
      rw [List.map_cons, List.dropWhile_cons, List.dropWhile_cons, same _ List.mem_cons_self, rest]
      split <;> rfl
  rw [trim, trim, ← List.map_reverse, within, List.map_reverse]
  intro instruction member
  exact same instruction (List.mem_reverse.mp member)

theorem transparent_of_mem_trailing (member : instruction ∈ trailing taken) :
    instruction.isTransparent = true := by
  rw [trailing, List.mem_reverse] at member
  exact List.all_eq_true.mp List.all_takeWhile _ member

theorem filter_isOperation_trim (taken : List Instruction) :
    (trim taken).filter (·.isOperation) = taken.filter (·.isOperation) := by
  have none : (trailing taken).filter (·.isOperation) = [] := by
    refine List.filter_eq_nil_iff.mpr fun instruction member => ?_
    simp [Instruction.isOperation_eq_false (transparent_of_mem_trailing member)]
  conv_rhs => rw [← trim_append_trailing taken, List.filter_append, none, List.append_nil]

theorem getLast?_trim (last : (trim taken).getLast? = some instruction) :
    instruction.isTransparent = false := by
  rw [trim, List.getLast?_reverse] at last
  have refused := List.head?_dropWhile_not (·.isTransparent) taken.reverse
  rw [last] at refused
  simpa using refused

theorem candidate_eq_ok_iff : Window.candidate scope label start window taken = .ok candidate ↔
    scope.registers window.arguments ≤ scope.limits.maxRegisters ∧
      (window.template (trim taken)).coversOperands = true ∧
      candidate = {
        block := label
        start := start
        stop := start + (trim taken).length
        template := window.template (trim taken)
        arguments := window.arguments.map (·.value)
        registers := scope.registers window.arguments
        result := window.temporaryValue
        operations := window.operations } := by
  unfold Window.candidate
  simp only
  split
  · rename_i exceeded
    simp [Nat.not_le.mpr exceeded]
  · rename_i budget
    simp only [Nat.not_lt.mp budget, true_and]
    cases covers : (window.template (trim taken)).coversOperands with
    | false => simp
    | true => simp [eq_comm]

theorem cut_scanBlock (scope : Scope) (block : Block) :
    Cut scope block.label 0 block.instructions (scanBlock scope block) :=
  cut_scanAhead scope block.label 0 block.instructions

/-- A window found in a method was closed over a run of the instructions of one block. -/
theorem of_mem_scan {method : Method} {limits : Limits} {found : Found}
    (member : found ∈ method.scan limits) :
    ∃ block ∈ method.blocks, ∃ before taken after window,
      block.instructions = before ++ taken ++ after ∧
      Grown (.ofMethod method limits) taken window ∧ taken ≠ [] ∧ window.pending = none ∧
      limits.minSize ≤ window.operations ∧
      found = Window.candidate (.ofMethod method limits) block.label before.length window taken := by
  obtain ⟨block, present, inBlock⟩ := List.mem_flatMap.mp member
  obtain ⟨before, taken, after, window, split, grown, begun, settled, large, same⟩ :=
    (cut_scanBlock (.ofMethod method limits) block).of_mem inBlock
  exact ⟨block, present, before, taken, after, window, split, grown, begun, settled, large,
    by simpa using same⟩

end Outlining.Window
