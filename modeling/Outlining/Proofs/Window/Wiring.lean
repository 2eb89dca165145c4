import Mathlib.Algebra.Order.Ring.Nat
import Outlining.Proofs.Template.Body
import Outlining.Proofs.Window.Binding

/-! The operations that a window has taken stand in rows, each with the slots of its operands. A
slot stands for the alias root of its operand once the arguments are given and the temporary is the
result produced last before the row. Every argument is read in some row, and no window exceeds the
register budget. -/
namespace Outlining.Window

open Outlining.Bytecode Outlining.Template

variable {scope : Scope} {taken : List Instruction} {instruction : Instruction}
  {window : Window} {temporary : Temporary} {arguments : List Argument} {produced : Option Var}

@[simp] theorem arguments_takeRefinement (window : Window) (scope : Scope)
    (instruction : Instruction) :
    (window.takeRefinement scope instruction).arguments = window.arguments := by
  unfold takeRefinement
  split
  · split <;> rfl
  · rfl

@[simp] theorem slots_takeRefinement (window : Window) (scope : Scope)
    (instruction : Instruction) :
    (window.takeRefinement scope instruction).slots = window.slots := by
  unfold takeRefinement
  split
  · split <;> rfl
  · rfl

@[simp] theorem operations_takeRefinement (window : Window) (scope : Scope)
    (instruction : Instruction) :
    (window.takeRefinement scope instruction).operations = window.operations := by
  unfold takeRefinement
  split
  · split <;> rfl
  · rfl

@[simp] theorem arguments_takeResult (window : Window) (scope : Scope)
    (instruction : Instruction) :
    (window.takeResult scope instruction).arguments = window.arguments := by
  unfold takeResult
  split <;> rfl

@[simp] theorem slots_takeResult (window : Window) (scope : Scope) (instruction : Instruction) :
    (window.takeResult scope instruction).slots = window.slots := by
  unfold takeResult
  split <;> rfl

@[simp] theorem operations_takeOperation (window : Window) (scope : Scope)
    (instruction : Instruction) :
    (window.takeOperation scope instruction).operations = window.operations + 1 := by
  unfold takeOperation takeResult
  dsimp only
  split <;> rfl

/-- The arguments and slots that an operation adds. -/
def bound (window : Window) (scope : Scope) (instruction : Instruction) :
    List Argument × List Slot :=
  scope.bind window.temporaryValue instruction window.arguments
    (window.operandsInOrder scope instruction).zipIdx

@[simp] theorem arguments_takeOperation (window : Window) (scope : Scope)
    (instruction : Instruction) :
    (window.takeOperation scope instruction).arguments = (window.bound scope instruction).1 := by
  simp [takeOperation, bound]

@[simp] theorem slots_takeOperation (window : Window) (scope : Scope)
    (instruction : Instruction) :
    (window.takeOperation scope instruction).slots =
      window.slots ++ (window.bound scope instruction).2 := by
  simp [takeOperation, bound]

theorem length_bound (window : Window) (scope : Scope) (instruction : Instruction) :
    (window.bound scope instruction).2.length = instruction.operands.length := by
  rw [bound, Scope.length_bind, List.length_zipIdx,
    (reordered_operandsInOrder window scope instruction).length_eq]

/-- What an operation adds to the arguments stands for operands of it, and not for the
temporary. -/
theorem bound_extends (window : Window) (scope : Scope) (instruction : Instruction) :
    ∃ fresh, (window.bound scope instruction).1 = window.arguments ++ fresh ∧
      ∀ argument ∈ fresh, some argument.value ≠ window.temporaryValue ∧
        ∃ operand ∈ instruction.operands, argument.value = scope.usage.root operand := by
  obtain ⟨fresh, all, known⟩ := scope.bind_extends window.temporaryValue instruction
    window.arguments (window.operandsInOrder scope instruction).zipIdx
  refine ⟨fresh, all, fun argument member => ?_⟩
  obtain ⟨fed, entry, listed, value⟩ := known argument member
  have ordered : entry.1 ∈ window.operandsInOrder scope instruction :=
    List.mem_of_getElem? (List.mem_zipIdx_iff_getElem?.mp listed)
  exact ⟨fed, entry.1,
    ((reordered_operandsInOrder window scope instruction).mem_iff entry.1).mp ordered, value⟩

theorem temporary_takeOperation_of_none (operates : instruction.isOperation = true)
    (silent : instruction.result = none) :
    (window.takeOperation scope instruction).temporary =
      window.temporary.bind (·.consume (window.temporaryReads scope instruction)) := by
  rcases Instruction.isOperation_cases operates with role | role | role
  · obtain ⟨_, _, _, _, _, _, _, _, result⟩ := Instruction.role_eq_arithmetic_iff.mp role
    simp [silent] at result
  · obtain ⟨_, _, _, result⟩ := Instruction.role_eq_allocation_iff.mp role
    simp [silent] at result
  · obtain ⟨_, _, _, opcode, _⟩ := Instruction.role_eq_call_iff.mp role
    simp [takeOperation, takeResult, opcode, silent]

theorem temporary_takeOperation_of_some {value : Var} (window : Window) (scope : Scope)
    (operates : instruction.isOperation = true) (result : instruction.result = some value) :
    ∃ type, (window.takeOperation scope instruction).temporary = scope.produce value type := by
  rcases Instruction.isOperation_cases operates with role | role | role
  · obtain ⟨_, numeric, _, _, _, opcode, _⟩ := Instruction.role_eq_arithmetic_iff.mp role
    exact ⟨numeric.descriptor, by simp [takeOperation, takeResult, opcode, result]⟩
  · obtain ⟨cls, _, opcode, _⟩ := Instruction.role_eq_allocation_iff.mp role
    exact ⟨cls, by simp [takeOperation, takeResult, opcode, result]⟩
  · obtain ⟨_, target, _, opcode, _⟩ := Instruction.role_eq_call_iff.mp role
    exact ⟨target.prototype.returnType, by simp [takeOperation, takeResult, opcode, result]⟩

theorem eq_of_produce {value : Var} {type : Descriptor}
    (made : scope.produce value type = some temporary) :
    temporary = ⟨value, type, scope.usage.reads value⟩ ∧ 0 < scope.usage.reads value := by
  unfold Scope.produce at made
  split at made
  · rename_i read
    cases made
    exact ⟨rfl, by simpa [Usage.isRead] using read⟩
  · cases made

theorem eq_of_consume {before : Temporary} {reads : Nat}
    (consumed : before.consume reads = some temporary) :
    temporary = { before with readsLeft := before.readsLeft - reads } ∧
      reads < before.readsLeft := by
  unfold Temporary.consume at consumed
  split at consumed
  · cases consumed
  · rename_i more
    cases consumed
    exact ⟨rfl, by omega⟩

theorem filter_isOperation_append_literal (role : instruction.role = .literal) :
    (taken ++ [instruction]).filter (·.isOperation) = taken.filter (·.isOperation) := by
  simp [Instruction.isOperation, role, Role.isOperation]

theorem filter_isOperation_append_refinement (role : instruction.role = .refinement) :
    (taken ++ [instruction]).filter (·.isOperation) = taken.filter (·.isOperation) := by
  simp [Instruction.isOperation, role, Role.isOperation]

theorem filter_isOperation_append_operation (operates : instruction.isOperation = true) :
    (taken ++ [instruction]).filter (·.isOperation) =
      taken.filter (·.isOperation) ++ [instruction] := by
  simp [operates]

/-- The temporary after a refinement is the one before it, with reads left. -/
theorem temporary_takeRefinement
    (known : (window.takeRefinement scope instruction).temporary = some temporary) :
    ∃ before, window.temporary = some before ∧ temporary.value = before.value ∧
      (temporary.readsLeft = before.readsLeft ∨ 0 < temporary.readsLeft ∧
        ∃ result, temporary.readsLeft = before.readsLeft - 1 + scope.usage.reads result) := by
  unfold takeRefinement at known
  split at known
  · split at known
    · simp only [Option.bind_eq_some_iff] at known
      obtain ⟨before, same, kept⟩ := known
      split at kept
      · cases kept
      · rename_i left
        cases kept
        exact ⟨before, same, rfl, .inr ⟨Nat.pos_of_ne_zero left, _, rfl⟩⟩
    · exact ⟨temporary, known, rfl, .inl rfl⟩
  · exact ⟨temporary, known, rfl, .inl rfl⟩

/-- The temporary is the result produced last, and it is still to be read. -/
theorem Grown.temporary_eq (grown : Grown scope taken window)
    (known : window.temporary = some temporary) :
    lastResult (taken.filter (·.isOperation)) = some temporary.value ∧
      0 < temporary.readsLeft := by
  induction grown generalizing temporary with
  | start => cases known
  | @literal taken window instruction grown begun role inductionHypothesis =>
    rw [filter_isOperation_append_literal role]
    exact inductionHypothesis known
  | @refinement taken window instruction grown begun role inductionHypothesis =>
    rw [filter_isOperation_append_refinement role]
    obtain ⟨before, same, value, left⟩ := temporary_takeRefinement known
    obtain ⟨last, positive⟩ := inductionHypothesis same
    refine ⟨value ▸ last, ?_⟩
    rcases left with kept | ⟨more, _⟩
    · exact kept ▸ positive
    · exact more
  | @operation taken window instruction grown operates admitted inductionHypothesis =>
    rw [filter_isOperation_append_operation operates, lastResult_append_singleton]
    cases result : instruction.result with
    | none =>
      dsimp only at known
      rw [temporary_takeOperation_of_none operates result, Option.bind_eq_some_iff] at known
      obtain ⟨before, same, consumed⟩ := known
      obtain ⟨rfl, more⟩ := eq_of_consume consumed
      exact ⟨(inductionHypothesis same).1, Nat.sub_pos_of_lt more⟩
    | some value =>
      obtain ⟨type, made⟩ :=
        temporary_takeOperation_of_some window scope operates result
      obtain ⟨rfl, read⟩ := eq_of_produce (made ▸ known)
      exact ⟨rfl, read⟩

/-- An operation with the slots of its operands, where `produced` is the result produced last
before it. -/
structure Row (scope : Scope) (arguments : List Argument) (produced : Option Var)
    (instruction : Instruction) (slots : List Slot) : Prop where
  operates : instruction.isOperation = true
  reads : ∃ order, Reordered instruction order ∧
    slots.map (·.resolve? (arguments.map (·.value)) produced) =
      order.map fun operand => some (scope.usage.root operand)
  typed : ∀ place index, slots[place]? = some (.argument index) →
    ∃ argument, arguments[index]? = some argument ∧
      argument.type = parameterType (scope.method.typeOf argument.value) instruction place

private theorem exists_resolved {slots : List Slot} {order : List Var} {resolve : Slot → Option Var}
    {root : Var → Var} {slot : Slot}
    (reads : slots.map resolve = order.map fun operand => some (root operand))
    (member : slot ∈ slots) : ∃ value, resolve slot = some value := by
  have image := List.mem_map_of_mem (f := resolve) member
  rw [reads] at image
  obtain ⟨operand, _, same⟩ := List.mem_map.mp image
  exact ⟨root operand, same.symm⟩

theorem Row.extend {slots : List Slot} (row : Row scope arguments produced instruction slots)
    (more : List Argument) : Row scope (arguments ++ more) produced instruction slots where
  operates := row.operates
  reads := by
    obtain ⟨order, reordered, reads⟩ := row.reads
    refine ⟨order, reordered, Eq.trans (List.map_congr_left fun slot member => ?_) reads⟩
    obtain ⟨value, resolved⟩ := exists_resolved reads member
    rw [resolved, List.map_append]
    exact resolve?_append _ resolved
  typed := by
    intro place index slot
    obtain ⟨argument, found, type⟩ := row.typed place index slot
    refine ⟨argument, ?_, type⟩
    rw [List.getElem?_append_left (List.getElem?_eq_some_iff.mp found).1, found]

theorem fit_of_admits (admitted : window.admits scope instruction = true)
    (fed : instruction.role ≠ .allocation) :
    ∃ fitted, scope.fit window.temporaryValue instruction window.arguments
        (window.operandsInOrder scope instruction).zipIdx = some fitted ∧
      scope.registers fitted ≤ scope.limits.maxRegisters := by
  have fitting := (admits_iff.mp admitted).fits fed
  unfold fits at fitting
  split at fitting
  · rename_i fitted fit
    exact ⟨fitted, fit, by simpa using fitting⟩
  · cases fitting

/-- Only an allocation may have operands that no check has seen. -/
def Bare (instructions : List Instruction) : Prop :=
  ∀ instruction ∈ instructions, instruction.role = .allocation → instruction.operands = []

theorem bound_of_bare (window : Window) (scope : Scope) (bare : instruction.operands = []) :
    window.bound scope instruction = (window.arguments, []) := by
  have order : window.operandsInOrder scope instruction = [] := by
    rw [← List.length_eq_zero_iff, (reordered_operandsInOrder window scope instruction).length_eq,
      bare, List.length_nil]
  rw [bound, order]
  rfl

theorem Grown.row_bound (grown : Grown scope taken window)
    (operates : instruction.isOperation = true)
    (admitted : window.admits scope instruction = true)
    (bare : instruction.role = .allocation → instruction.operands = []) :
    Row scope (window.bound scope instruction).1 (lastResult (taken.filter (·.isOperation)))
      instruction (window.bound scope instruction).2 where
  operates := operates
  reads := by
    refine ⟨window.operandsInOrder scope instruction, reordered_operandsInOrder .., ?_⟩
    have reads := scope.resolve_bind window.temporaryValue instruction window.arguments
      (window.operandsInOrder scope instruction).zipIdx
    have order : ((window.operandsInOrder scope instruction).zipIdx.map fun entry =>
        some (scope.usage.root entry.1)) =
        (window.operandsInOrder scope instruction).map fun operand =>
          some (scope.usage.root operand) := by
      rw [← List.zipIdx_map_fst 0 (window.operandsInOrder scope instruction), List.map_map]
      simp
    rw [order] at reads
    refine Eq.trans (List.map_congr_left fun slot member => ?_) reads
    obtain ⟨value, resolved⟩ := exists_resolved reads member
    cases slot with
    | argument index => rfl
    | temporary =>
      simp only [Slot.resolve?] at resolved ⊢
      unfold temporaryValue at resolved ⊢
      obtain ⟨temporary, known, rfl⟩ := Option.map_eq_some_iff.mp resolved
      rw [(grown.temporary_eq known).1, resolved]
  typed := by
    intro place index slot
    by_cases role : instruction.role = .allocation
    · rw [bound_of_bare window scope (bare role)] at slot
      simp at slot
    · obtain ⟨fitted, fit, _⟩ := fit_of_admits admitted role
      obtain ⟨entry, argument, number, found, _, type⟩ := Scope.typed_bind fit slot
      rw [List.getElem?_zipIdx, Option.map_eq_some_iff] at number
      obtain ⟨operand, _, rfl⟩ := number
      rw [bound, Scope.bind_fit fit]
      exact ⟨argument, found, by simpa using type⟩

/-- The rows of a window. -/
structure Wired (scope : Scope) (taken : List Instruction) (window : Window)
    (rows : List (Instruction × List Slot)) : Prop where
  operations : rows.map Prod.fst = taken.filter (·.isOperation)
  slots : rows.flatMap Prod.snd = window.slots
  row : ∀ before row after, rows = before ++ row :: after →
    Row scope window.arguments (lastResult (before.map Prod.fst)) row.1 row.2

/-- A list split at one of its entries is split at its last entry or before it. -/
theorem concat_eq_append_cons {α : Type} {entries before after : List α} {last entry : α}
    (same : entries ++ [last] = before ++ entry :: after) :
    (after = [] ∧ entries = before ∧ last = entry) ∨
      ∃ rest, after = rest ++ [last] ∧ entries = before ++ entry :: rest := by
  rcases List.eq_nil_or_concat after with rfl | ⟨rest, other, rfl⟩
  · obtain ⟨rfl, only⟩ := List.append_inj' same rfl
    exact .inl ⟨rfl, rfl, List.singleton_inj.mp only⟩
  · have longer : entries ++ [last] = (before ++ entry :: rest) ++ [other] := by
      simpa using same
    obtain ⟨rfl, only⟩ := List.append_inj' longer rfl
    exact .inr ⟨rest, by rw [List.singleton_inj.mp only, List.concat_eq_append], rfl⟩

/-- Taking an operation adds its row. -/
theorem Wired.operation {rows : List (Instruction × List Slot)}
    (wired : Wired scope taken window rows) (grown : Grown scope taken window)
    (operates : instruction.isOperation = true)
    (admitted : window.admits scope instruction = true)
    (bare : instruction.role = .allocation → instruction.operands = []) :
    Wired scope (taken ++ [instruction])
      { window.takeOperation scope instruction with taken := window.taken + 1 }
      (rows ++ [(instruction, (window.bound scope instruction).2)]) where
  operations := by
    rw [filter_isOperation_append_operation operates, List.map_append, wired.operations]
    rfl
  slots := by simp [wired.slots]
  row := by
    intro before row after split
    simp only [arguments_takeOperation]
    rcases concat_eq_append_cons split with ⟨_, rfl, rfl⟩ | ⟨others, _, earlier⟩
    · rw [wired.operations]
      exact grown.row_bound operates admitted bare
    · obtain ⟨fresh, all, _⟩ := window.bound_extends scope instruction
      rw [all]
      exact (wired.row before row others earlier).extend fresh

/-- Every window is wired row by row. -/
theorem Grown.wired (grown : Grown scope taken window) (bare : Bare taken) :
    ∃ rows, Wired scope taken window rows := by
  induction grown with
  | start => exact ⟨[], rfl, rfl, by simp⟩
  | @literal taken window instruction grown begun role inductionHypothesis =>
    obtain ⟨rows, wired⟩ := inductionHypothesis fun other member =>
      bare other (List.mem_append_left _ member)
    refine ⟨rows, ?_, wired.slots, wired.row⟩
    rw [filter_isOperation_append_literal role, wired.operations]
  | @refinement taken window instruction grown begun role inductionHypothesis =>
    obtain ⟨rows, wired⟩ := inductionHypothesis fun other member =>
      bare other (List.mem_append_left _ member)
    refine ⟨rows, ?_, by simpa using wired.slots, by simpa using wired.row⟩
    rw [filter_isOperation_append_refinement role, wired.operations]
  | @operation taken window instruction grown operates admitted inductionHypothesis =>
    obtain ⟨rows, wired⟩ := inductionHypothesis fun other member =>
      bare other (List.mem_append_left _ member)
    exact ⟨_, wired.operation grown operates admitted (bare instruction (by simp))⟩

theorem Grown.length_slots (grown : Grown scope taken window) :
    window.slots.length =
      ((taken.filter (·.isOperation)).map (·.operands.length)).sum := by
  induction grown with
  | start => rfl
  | literal grown begun role inductionHypothesis =>
    rw [filter_isOperation_append_literal role, ← inductionHypothesis]
  | refinement grown begun role inductionHypothesis =>
    rw [filter_isOperation_append_refinement role, ← inductionHypothesis, slots_takeRefinement]
  | operation grown operates admitted inductionHypothesis =>
    rw [filter_isOperation_append_operation operates, slots_takeOperation, List.length_append,
      length_bound, inductionHypothesis]
    simp

theorem Grown.argument_mem_slots (grown : Grown scope taken window) {index : Nat}
    (inside : index < window.arguments.length) : Slot.argument index ∈ window.slots := by
  induction grown with
  | start => simp [empty] at inside
  | literal grown begun role inductionHypothesis => exact inductionHypothesis inside
  | refinement grown begun role inductionHypothesis =>
    simpa using inductionHypothesis (by simpa using inside)
  | @operation taken window instruction grown operates admitted inductionHypothesis =>
    simp only [arguments_takeOperation] at inside
    simp only [slots_takeOperation, List.mem_append]
    by_cases known : index < window.arguments.length
    · exact .inl (inductionHypothesis known)
    · exact .inr (Scope.argument_mem_bind _ (Nat.not_lt.mp known) inside)

/-- Every argument is the alias root of what an operation of the window reads. -/
theorem Grown.exists_operand (grown : Grown scope taken window) {argument : Argument}
    (passed : argument ∈ window.arguments) :
    ∃ instruction ∈ taken.filter (·.isOperation), ∃ operand ∈ instruction.operands,
      argument.value = scope.usage.root operand := by
  induction grown with
  | start => cases passed
  | literal grown begun role inductionHypothesis =>
    rw [filter_isOperation_append_literal role]
    exact inductionHypothesis passed
  | refinement grown begun role inductionHypothesis =>
    rw [filter_isOperation_append_refinement role]
    exact inductionHypothesis (by simpa using passed)
  | @operation taken window instruction grown operates admitted inductionHypothesis =>
    rw [filter_isOperation_append_operation operates]
    obtain ⟨fresh, extended, known⟩ := window.bound_extends scope instruction
    rw [arguments_takeOperation, extended] at passed
    rcases List.mem_append.mp passed with before | added
    · obtain ⟨earlier, member, read⟩ := inductionHypothesis before
      exact ⟨earlier, List.mem_append_left _ member, read⟩
    · exact ⟨instruction, by simp, (known argument added).2⟩

/-- A window passes no more registers than allowed. -/
theorem Grown.registers_le (grown : Grown scope taken window) (bare : Bare taken) :
    scope.registers window.arguments ≤ scope.limits.maxRegisters := by
  induction grown with
  | start => exact Nat.zero_le _
  | literal grown begun role inductionHypothesis =>
    exact inductionHypothesis fun other member => bare other (List.mem_append_left _ member)
  | refinement grown begun role inductionHypothesis =>
    rw [arguments_takeRefinement]
    exact inductionHypothesis fun other member => bare other (List.mem_append_left _ member)
  | @operation taken window instruction grown operates admitted inductionHypothesis =>
    rw [arguments_takeOperation]
    by_cases role : instruction.role = .allocation
    · rw [bound_of_bare window scope (bare instruction (by simp) role)]
      exact inductionHypothesis fun other member => bare other (List.mem_append_left _ member)
    · obtain ⟨fitted, fit, budget⟩ := fit_of_admits admitted role
      rw [bound, Scope.bind_fit fit]
      exact budget

end Outlining.Window
