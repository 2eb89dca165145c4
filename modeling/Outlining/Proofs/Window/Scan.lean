import Mathlib.Data.List.TakeWhile
import Outlining.Proofs.Window.Candidate
import Outlining.Proofs.Window.Twin

namespace Outlining.Window

open Outlining.Bytecode Outlining.Template

variable {scope : Scope} {instruction : Instruction}
  {taken plain tail ahead rest : List Instruction}
  {window final : Window} {last : Nat} {allocation : Allocation}

/-- Whether growth over some instructions goes on with a window, whatever follows. -/
def Passes (scope : Scope) (window : Window) (plain : List Instruction) (next : Window) : Prop :=
  ∀ tail, grow scope window (plain ++ tail) = grow scope next tail

/-- Whether growth over some instructions has a result, whatever follows. -/
def Stops (scope : Scope) (window : Window) (plain : List Instruction)
    (result : Option (Window × Nat)) : Prop :=
  ∀ tail, grow scope window (plain ++ tail) = result

/-- Whether no window takes anything of some instructions. -/
def Blocks (scope : Scope) (tail : List Instruction) : Prop :=
  ∀ window, grow scope window tail = window.ended

theorem blocks_cons (solid : instruction.isTransparent = false)
    (refused : ∀ window : Window, window.admits scope instruction = false)
    (rest : List Instruction) : Blocks scope (instruction :: rest) := by
  intro window
  rw [grow, solid, refused]
  rfl

/-- A scan goes on after some of the instructions that follow the first. -/
theorem scan_induction {motive : List Instruction → Prop} (nil : motive [])
    (cons : ∀ instruction plain, (∀ skip, motive (List.drop skip plain)) →
      motive (instruction :: plain))
    (plain : List Instruction) : motive plain := by
  induction size : plain.length using Nat.strongRecOn generalizing plain with
  | ind size inductionHypothesis =>
    cases plain with
    | nil => exact nil
    | cons instruction plain =>
      refine cons instruction plain fun skip => inductionHypothesis _ ?_ _ rfl
      rw [List.length_drop, ← size, List.length_cons]
      omega

theorem grow_append_of_blocks (blocks : Blocks scope tail) (window : Window)
    (plain : List Instruction) : grow scope window (plain ++ tail) = grow scope window plain := by
  induction plain generalizing window with
  | nil => exact blocks window
  | cons instruction plain inductionHypothesis =>
    rw [List.cons_append, grow, grow]
    simp only [inductionHypothesis]

/-- Growth over some instructions goes on with a window that has taken all of them, or stops. -/
theorem Grown.passes_or_stops (grown : Grown scope taken window) (plain : List Instruction) :
    (∃ next, Passes scope window plain next ∧ Grown scope (taken ++ plain) next) ∨
      ∃ result, Stops scope window plain result := by
  induction plain generalizing taken window with
  | nil => exact .inl ⟨window, fun _ => rfl, by simpa using grown⟩
  | cons instruction plain inductionHypothesis =>
    simp only [Passes, Stops, List.cons_append, grow]
    by_cases first : (instruction.isTransparent && window.taken == 0) = true
    · simp only [first, if_true]
      exact .inr ⟨none, fun _ => rfl⟩
    by_cases accepted : (instruction.isTransparent || window.admits scope instruction) = true
    · have next := grown.accept first accepted
      simp only [first, accepted, if_true]
      by_cases full : scope.limits.maxSize ≤ (window.take scope instruction).operations
      · exact .inr ⟨_, fun _ => if_pos full⟩
      · rcases inductionHypothesis next with ⟨further, passes, grown⟩ | ⟨result, stops⟩
        · refine .inl ⟨further, fun tail => ?_, by simpa using grown⟩
          exact (if_neg full).trans (passes tail)
        · exact .inr ⟨result, fun tail => (if_neg full).trans (stops tail)⟩
    · simp only [first, accepted]
      exact .inr ⟨_, fun _ => rfl⟩

theorem lt_length_of_grow (grew : grow scope empty ahead = some (window, last)) :
    last < ahead.length := by
  obtain ⟨taken, rest, rfl, _, count⟩ := Grown.of_grow .start grew
  rw [List.length_nil, Nat.zero_add] at count
  rw [List.length_append]
  omega

theorem Grown.ended_eq (grown : Grown scope taken window) (some : taken ≠ []) :
    window.ended = .some (window, taken.length - 1) := by
  unfold Window.ended
  have count := grown.taken_eq
  split
  · rename_i none
    rw [none] at count
    exact absurd (List.length_eq_zero_iff.mp count.symm) some
  · rename_i before more
    rw [more] at count
    rw [← count]
    rfl

theorem Grown.offset_lt (grown : Grown scope taken window)
    (waits : window.pending = some allocation) : allocation.offset < taken.length := by
  induction grown with
  | start => cases waits
  | literal _ _ _ inductionHypothesis =>
    have before := inductionHypothesis waits
    simp
    omega
  | @refinement taken window instruction grown begun role inductionHypothesis =>
    rw [← take_refinement _ _ role, pending_take, (Instruction.role_eq_refinement_iff.mp role).1]
      at waits
    have before := inductionHypothesis waits
    simp
    omega
  | @operation taken window instruction grown operates admitted inductionHypothesis =>
    rw [← take_operation _ _ operates, pending_take] at waits
    rw [List.length_append, List.length_singleton]
    split at waits
    · split at waits
      · cases waits
        have count := grown.taken_eq
        dsimp only
        omega
      · exact Nat.lt_succ_of_lt (inductionHypothesis waits)
    · split at waits
      · cases waits
      · exact Nat.lt_succ_of_lt (inductionHypothesis waits)
    · exact Nat.lt_succ_of_lt (inductionHypothesis waits)

/-- The template of a window found, or the assertion that it broke. -/
def sketch (found : Found) : Except Assertion Template := found.map (·.template)

/-- The templates that a scan finds. -/
def sketches (scope : Scope) (ahead : List Instruction) : List (Except Assertion Template) :=
  (scanAhead scope 0 0 0 ahead).map sketch

theorem sketch_candidate (scope : Scope) (label : Label) (start : Nat) (window : Window)
    (instructions : List Instruction) :
    sketch (candidate scope label start window instructions) =
      if scope.limits.maxRegisters < scope.registers window.arguments then .error .registerBudget
      else if (window.template (trim instructions)).coversOperands then
        .ok (window.template (trim instructions))
      else .error .operandSlots := by
  unfold candidate
  dsimp only
  split
  · rfl
  · cases (window.template (trim instructions)).coversOperands <;> rfl

/-- What closing a window finds, and how many instructions it passes over. -/
def closing (scope : Scope) (ahead : List Instruction) (window : Window) (last : Nat) :
    Option (Except Assertion Template) × Nat :=
  Prod.map (Option.map sketch) id (close scope 0 0 ahead window last)

theorem close_eq_closing (scope : Scope) (label : Label) (start : Nat) (ahead : List Instruction)
    (window : Window) (last : Nat) :
    Prod.map (Option.map sketch) id (close scope label start ahead window last) =
      closing scope ahead window last := by
  unfold closing close
  split
  · rfl
  · split
    · rfl
    · simp only [Prod.map_apply, Option.map_some, sketch_candidate]

theorem closing_of_pending (scope : Scope) (ahead : List Instruction) (last : Nat)
    (waits : window.pending = some allocation) :
    closing scope ahead window last =
      (none, if allocation.offset = 0 then last else allocation.offset - 1) := by
  unfold closing close
  rw [waits]
  dsimp only
  split
  · rename_i none
    simp [none]
  · rename_i skip some
    simp [some]

theorem close_of_small (label : Label) (start : Nat) (ahead : List Instruction) (last : Nat)
    (settled : window.pending = none) (small : window.operations < scope.limits.minSize) :
    close scope label start ahead window last = (none, 0) := by
  unfold close
  rw [settled]
  simp only [small, if_true]

theorem closing_of_small (ahead : List Instruction) (last : Nat) (settled : window.pending = none)
    (small : window.operations < scope.limits.minSize) :
    closing scope ahead window last = (none, 0) := by
  rw [closing, close_of_small 0 0 ahead last settled small]
  rfl

theorem closing_of_large (ahead : List Instruction) (last : Nat) (settled : window.pending = none)
    (large : ¬ window.operations < scope.limits.minSize) :
    closing scope ahead window last =
      (some (sketch (candidate scope 0 0 window (ahead.take (last + 1)))), last) := by
  unfold closing close
  rw [settled]
  simp only [large, if_false]
  rfl

theorem closing_append (scope : Scope) (tail : List Instruction) (window : Window)
    (inside : last < plain.length) :
    closing scope (plain ++ tail) window last = closing scope plain window last := by
  unfold closing close
  rw [List.take_append_of_le_length inside]

theorem Grown.closing_le (grown : Grown scope taken window) (ahead : List Instruction)
    (count : taken.length = last + 1) : (closing scope ahead window last).2 ≤ last := by
  cases waits : window.pending with
  | some allocation =>
    have before := grown.offset_lt waits
    rw [closing_of_pending scope ahead last waits]
    dsimp only
    split <;> omega
  | none =>
    by_cases small : window.operations < scope.limits.minSize
    · rw [closing_of_small ahead last waits small]
      exact Nat.zero_le last
    · rw [closing_of_large ahead last waits small]

theorem closing_le_of_grow (grew : grow scope empty ahead = some (window, last))
    (instructions : List Instruction) : (closing scope instructions window last).2 ≤ last := by
  obtain ⟨taken, rest, _, grown, count⟩ := Grown.of_grow .start grew
  simp only [List.nil_append, List.length_nil, Nat.zero_add] at grown count
  exact grown.closing_le instructions count.symm

/-- A scan that has grown a window goes on behind what closing it passes over. -/
theorem scanAhead_cons_of_some (label : Label) (start : Nat)
    (grew : grow scope empty (instruction :: rest) = some (window, last)) :
    scanAhead scope label start 0 (instruction :: rest) =
      (close scope label start (instruction :: rest) window last).1.toList ++
        scanAhead scope label (start + 1 + (closing scope (instruction :: rest) window last).2) 0
          (rest.drop (closing scope (instruction :: rest) window last).2) := by
  rw [scanAhead, grew, ← close_eq_closing scope label start]
  dsimp only
  rw [scanAhead_skip]
  rfl

private theorem map_sketch_congr (scope : Scope) (label other : Label) (start place skip : Nat)
    (ahead : List Instruction) :
    (scanAhead scope label start skip ahead).map sketch =
      (scanAhead scope other place skip ahead).map sketch := by
  induction ahead generalizing start place skip with
  | nil => cases skip <;> rfl
  | cons instruction ahead inductionHypothesis =>
    cases skip with
    | succ skip => exact inductionHypothesis (start + 1) (place + 1) skip
    | zero =>
      simp only [scanAhead]
      split
      · exact inductionHypothesis (start + 1) (place + 1) 0
      · rename_i window last grew
        have here := close_eq_closing scope label start (instruction :: ahead) window last
        rw [← close_eq_closing scope other place] at here
        simp only [Prod.ext_iff, Prod.map_fst, Prod.map_snd, id_eq] at here
        simp only [List.map_append, ← Option.toList_map, here.1, here.2]
        rw [inductionHypothesis (start + 1) (place + 1)]

theorem map_sketch_scanAhead (scope : Scope) (label : Label) (start skip : Nat)
    (ahead : List Instruction) :
    (scanAhead scope label start skip ahead).map sketch = sketches scope (ahead.drop skip) := by
  rw [scanAhead_skip]
  exact map_sketch_congr ..

@[simp] theorem sketches_nil (scope : Scope) : sketches scope [] = [] := rfl

theorem sketches_cons_of_none (none : grow scope empty (instruction :: rest) = none) :
    sketches scope (instruction :: rest) = sketches scope rest := by
  rw [sketches, scanAhead, none]
  exact map_sketch_scanAhead scope 0 1 0 rest

theorem sketches_cons_of_some
    (some : grow scope empty (instruction :: rest) = some (window, last)) :
    sketches scope (instruction :: rest) =
      (closing scope (instruction :: rest) window last).1.toList ++
        sketches scope (rest.drop (closing scope (instruction :: rest) window last).2) := by
  rw [sketches, scanAhead, some]
  dsimp only
  rw [List.map_append, map_sketch_scanAhead, ← Option.toList_map]
  rfl

theorem sketches_cons_of_blocks (blocks : Blocks scope (instruction :: rest)) :
    sketches scope (instruction :: rest) = sketches scope rest :=
  sketches_cons_of_none (blocks empty)

/-- If growth from the first instruction does not depend on what follows, the first step of a scan
does not either. -/
theorem sketches_append_of_grow {more : List (Except Assertion Template)}
    (same : grow scope empty (instruction :: (plain ++ tail)) =
      grow scope empty (instruction :: plain))
    (later : ∀ skip, sketches scope (plain.drop skip ++ tail) =
      sketches scope (plain.drop skip) ++ more) :
    sketches scope (instruction :: (plain ++ tail)) =
      sketches scope (instruction :: plain) ++ more := by
  cases grew : grow scope empty (instruction :: plain) with
  | none =>
    rw [sketches_cons_of_none (same.trans grew), sketches_cons_of_none grew]
    exact later 0
  | some result =>
    obtain ⟨window, last⟩ := result
    have inside := lt_length_of_grow grew
    have closes := closing_append scope tail window inside
    rw [List.cons_append] at closes
    have within := (closing_le_of_grow grew (instruction :: plain)).trans (Nat.le_of_lt_succ inside)
    rw [sketches_cons_of_some (same.trans grew), sketches_cons_of_some grew, closes,
      List.drop_append_of_le_length within, later, List.append_assoc]

/-- A scan does not look beyond an instruction that no window takes. -/
theorem sketches_append_of_blocks (blocks : Blocks scope tail) (plain : List Instruction) :
    sketches scope (plain ++ tail) = sketches scope plain ++ sketches scope tail := by
  induction plain using scan_induction with
  | nil => rfl
  | cons instruction plain later =>
    exact sketches_append_of_grow (grow_append_of_blocks blocks empty (instruction :: plain)) later

theorem sketches_append_of_transparent (front : List Instruction)
    (transparent : ∀ instruction ∈ front, instruction.isTransparent = true) :
    sketches scope (front ++ rest) = sketches scope rest := by
  induction front with
  | nil => rfl
  | cons instruction front inductionHypothesis =>
    have none : grow scope empty (instruction :: (front ++ rest)) = none := by
      simp [grow, transparent instruction List.mem_cons_self, empty]
    rw [List.cons_append, sketches_cons_of_none none]
    exact inductionHypothesis fun other member => transparent other (List.mem_cons_of_mem _ member)

theorem trim_append_of_transparent (instructions : List Instruction) {more : List Instruction}
    (transparent : ∀ instruction ∈ more, instruction.isTransparent = true) :
    trim (instructions ++ more) = trim instructions := by
  rw [trim, trim, List.reverse_append, List.dropWhile_append_of_pos]
  intro instruction member
  exact transparent instruction (List.mem_reverse.mp member)

/-- Transparent instructions at the end of a window are no part of what is found. -/
private theorem candidate_append_of_transparent (window : Window) (count : Nat)
    (instructions : List Instruction) {more : List Instruction}
    (transparent : ∀ instruction ∈ more, instruction.isTransparent = true) :
    candidate scope 0 0 { window with taken := count } (instructions ++ more) =
      candidate scope 0 0 window instructions := by
  unfold candidate
  rw [trim_append_of_transparent _ transparent]
  rfl

private theorem isTransparent_of_literal (role : instruction.role = .literal) :
    instruction.isTransparent = true := by
  rw [Instruction.isTransparent, role]
  rfl

/-- A window takes some of the literals that follow, and is none the wiser. -/
theorem grow_literals {literals : List Instruction} (some : window.taken ≠ 0)
    (literal : ∀ instruction ∈ literals, instruction.role = .literal) :
    ∃ count ≤ literals.length, grow scope window literals =
      .some ({ window with taken := window.taken + count }, window.taken + count - 1) := by
  induction literals generalizing window with
  | nil =>
    refine ⟨0, Nat.le_refl 0, ?_⟩
    change window.ended = _
    unfold Window.ended
    split
    · rename_i none
      exact absurd none some
    · rename_i before more
      have last : before = window.taken - 1 := by omega
      rw [last]
      rfl
  | cons instruction literals inductionHypothesis =>
    have role := literal instruction List.mem_cons_self
    have begun : (window.taken == 0) = false := by simpa using some
    simp only [grow, isTransparent_of_literal role, begun, take_literal window scope role]
    by_cases full : scope.limits.maxSize ≤ window.operations
    · refine ⟨1, by simp, ?_⟩
      simp [full]
    · obtain ⟨count, most, grew⟩ := @inductionHypothesis { window with taken := window.taken + 1 }
        (Nat.succ_ne_zero _) fun other member => literal other (List.mem_cons_of_mem _ member)
      refine ⟨count + 1, by simpa using most, ?_⟩
      simp [full, grew, Nat.add_assoc, Nat.add_comm 1]

/-- A window that has taken all instructions up to some literals is closed as if the literals were
not there. -/
private theorem sketches_append_of_passes {literals : List Instruction} {next : Window}
    (literal : ∀ instruction ∈ literals, instruction.role = .literal)
    (passes : Passes scope empty (instruction :: plain) next)
    (grown : Grown scope (instruction :: plain) next)
    (later : ∀ skip, sketches scope (plain.drop skip ++ literals) =
      sketches scope (plain.drop skip)) :
    sketches scope (instruction :: (plain ++ literals)) =
      sketches scope (instruction :: plain) := by
  have transparent : ∀ instruction ∈ literals, instruction.isTransparent = true :=
    fun instruction member => isTransparent_of_literal (literal instruction member)
  have count : next.taken = plain.length + 1 := grown.taken_eq
  obtain ⟨more, most, grew⟩ := grow_literals (by omega : next.taken ≠ 0) literal
  have last : next.taken + more - 1 = plain.length + more := by omega
  rw [← passes literals, last, List.cons_append] at grew
  have ends := (passes []).trans (grown.ended_eq (List.cons_ne_nil _ _))
  rw [List.append_nil, List.length_cons, Nat.add_sub_cancel] at ends
  have nothing : sketches scope ((plain ++ literals).drop (plain.length + more)) =
      sketches scope (plain.drop plain.length) := by
    rw [List.drop_length_add_append, List.drop_length, ← List.append_nil (literals.drop more)]
    exact sketches_append_of_transparent _ fun other member =>
      transparent other (List.mem_of_mem_drop member)
  generalize known : { next with taken := next.taken + more } = wider at grew
  have pending : wider.pending = next.pending := by rw [← known]
  have operations : wider.operations = next.operations := by rw [← known]
  rw [sketches_cons_of_some grew, sketches_cons_of_some ends]
  cases waits : next.pending with
  | some allocation =>
    have early := grown.offset_lt waits
    rw [List.length_cons] at early
    rw [closing_of_pending scope _ _ (pending.trans waits), closing_of_pending scope _ _ waits]
    by_cases first : allocation.offset = 0
    · simp only [first, if_true, nothing]
    · have within : allocation.offset - 1 ≤ plain.length := by omega
      simp only [first, if_false, List.drop_append_of_le_length within, later]
  | none =>
    by_cases small : next.operations < scope.limits.minSize
    · have rest := later 0
      rw [List.drop_zero] at rest
      rw [closing_of_small _ _ (pending.trans waits) (operations ▸ small),
        closing_of_small _ _ waits small, List.drop_zero, List.drop_zero, rest]
    · rw [closing_of_large _ _ (pending.trans waits) (operations ▸ small),
        closing_of_large _ _ waits small, nothing]
      have all : (instruction :: (plain ++ literals)).take (plain.length + more + 1) =
          (instruction :: plain) ++ literals.take more := by
        rw [List.take_succ_cons, List.take_length_add_append]
        rfl
      have first : (instruction :: plain).take (plain.length + 1) = instruction :: plain :=
        List.take_of_length_le (Nat.le_refl _)
      rw [all, first, ← known, candidate_append_of_transparent next _ _ fun other member =>
        transparent other (List.mem_of_mem_take member)]

/-- Literals at the end add nothing to what a scan finds. -/
theorem sketches_append_of_literals {literals : List Instruction}
    (literal : ∀ instruction ∈ literals, instruction.role = .literal)
    (plain : List Instruction) : sketches scope (plain ++ literals) = sketches scope plain := by
  induction plain using scan_induction with
  | nil =>
    have nothing : sketches scope (literals ++ []) = sketches scope [] :=
      sketches_append_of_transparent literals
        fun instruction member => isTransparent_of_literal (literal instruction member)
    rwa [List.append_nil] at nothing
  | cons instruction plain later =>
    rcases Grown.start.passes_or_stops (instruction :: plain) with
      ⟨next, passes, grown⟩ | ⟨result, stops⟩
    · exact sketches_append_of_passes literal passes grown later
    · have same := (stops literals).trans (stops []).symm
      rw [List.append_nil] at same
      rw [List.cons_append, ← List.append_nil (sketches scope (instruction :: plain))]
      apply sketches_append_of_grow same
      intro skip
      rw [later skip, List.append_nil]

end Outlining.Window
