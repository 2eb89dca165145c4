import Mathlib.Data.List.Dedup
import Outlining.Proofs.Window.Passing

namespace Outlining.Window

open Outlining.Bytecode Outlining.Template

variable {scope : Scope} {temporary : Option Var} {instruction : Instruction} {window : Window}
  {arguments fitted : List Argument} {operands : List (Var × Nat)} {entry : Var × Nat}
  {read : List Var} {value : Var}

/-- Why operands cannot be passed with the arguments so far. -/
inductive Scope.Unfit (scope : Scope) (temporary : Option Var) (instruction : Instruction)
    (arguments : List Argument) (operands : List (Var × Nat)) : Prop where
  | unsupported {operand : Var} {place : Nat} (read : (operand, place) ∈ operands)
      (fed : some (scope.usage.root operand) ≠ temporary)
      (fresh : scope.usage.root operand ∉ arguments.map (·.value))
      (refused : scope.supports (scope.method.typeOf (scope.usage.root operand)) = false)
  | retyped {operand : Var} {place : Nat} {argument : Argument} (read : (operand, place) ∈ operands)
      (fed : some (scope.usage.root operand) ≠ temporary) (known : argument ∈ arguments)
      (value : argument.value = scope.usage.root operand)
      (differs : argument.type ≠
        parameterType (scope.method.typeOf (scope.usage.root operand)) instruction place)
  | repeated {operand other : Var} {place otherPlace : Nat} (read : (operand, place) ∈ operands)
      (again : (other, otherPlace) ∈ operands)
      (fed : some (scope.usage.root operand) ≠ temporary)
      (fresh : scope.usage.root operand ∉ arguments.map (·.value))
      (same : scope.usage.root other = scope.usage.root operand)
      (differs : parameterType (scope.method.typeOf (scope.usage.root operand)) instruction place ≠
        parameterType (scope.method.typeOf (scope.usage.root operand)) instruction otherPlace)

namespace Scope

theorem Unfit.cons (unfit : scope.Unfit temporary instruction arguments operands) :
    scope.Unfit temporary instruction arguments (entry :: operands) := by
  cases unfit with
  | unsupported read fed fresh refused =>
    exact .unsupported (List.mem_cons_of_mem _ read) fed fresh refused
  | retyped read fed known value differs =>
    exact .retyped (List.mem_cons_of_mem _ read) fed known value differs
  | repeated read again fed fresh same differs =>
    exact .repeated (List.mem_cons_of_mem _ read) (List.mem_cons_of_mem _ again) fed fresh same
      differs

/-- Operands that do not fit with one more argument do not fit with the operand that is passed as
that argument. -/
theorem Unfit.of_concat {operand : Var} {place : Nat}
    (fed : some (scope.usage.root operand) ≠ temporary)
    (fresh : scope.usage.root operand ∉ arguments.map (·.value))
    (unfit : scope.Unfit temporary instruction
      (arguments ++ [scope.asked instruction (operand, place)]) operands) :
    scope.Unfit temporary instruction arguments ((operand, place) :: operands) := by
  cases unfit with
  | unsupported read otherFed otherFresh refused =>
    rw [List.map_append, List.mem_append, not_or] at otherFresh
    exact .unsupported (List.mem_cons_of_mem _ read) otherFed otherFresh.1 refused
  | retyped read otherFed known value differs =>
    rcases List.mem_append.mp known with before | added
    · exact .retyped (List.mem_cons_of_mem _ read) otherFed before value differs
    · obtain rfl := List.mem_singleton.mp added
      dsimp only [asked] at value differs
      rw [← value] at differs
      exact .repeated List.mem_cons_self (List.mem_cons_of_mem _ read) fed fresh value.symm differs
  | repeated read again otherFed otherFresh same differs =>
    rw [List.map_append, List.mem_append, not_or] at otherFresh
    exact .repeated (List.mem_cons_of_mem _ read) (List.mem_cons_of_mem _ again) otherFed
      otherFresh.1 same differs

theorem unfit_of_fit (fails : scope.fit temporary instruction arguments operands = none) :
    scope.Unfit temporary instruction arguments operands := by
  induction operands generalizing arguments with
  | nil => cases fails
  | cons entry operands inductionHypothesis =>
    obtain ⟨operand, place⟩ := entry
    simp only [fit] at fails
    split at fails
    · exact (inductionHypothesis fails).cons
    · rename_i fed
      split at fails
      · rename_i argument found
        split at fails
        · exact (inductionHypothesis fails).cons
        · rename_i differs
          exact .retyped List.mem_cons_self fed (List.mem_of_find?_eq_some found)
            (by simpa using List.find?_some found) differs
      · rename_i missing
        have fresh : scope.usage.root operand ∉ arguments.map (·.value) := by
          simpa using missing
        split at fails
        · exact (inductionHypothesis fails).of_concat fed fresh
        · rename_i refused
          exact .unsupported List.mem_cons_self fed fresh (by simpa using refused)

theorem of_supports {type : ValueType} (refused : scope.supports type = false) :
    scope.limits.interfaceArrays = false ∧ type.isArray = true ∧
      (type.base = .null ∨ ∃ cls interfaces, type.base = .object cls interfaces ∧
        interfaces ≠ []) := by
  unfold supports at refused
  split at refused
  · cases refused
  · rename_i asked
    simp only [Bool.or_eq_true, Bool.not_eq_true', not_or, Bool.not_eq_false,
      Bool.not_eq_true] at asked
    refine ⟨asked.2, asked.1, ?_⟩
    have inner := type.base_not_array
    cases base : type.base with
    | number numeric => simp [base] at refused
    | object cls interfaces =>
      refine .inr ⟨cls, interfaces, rfl, fun none => ?_⟩
      simp [base, none] at refused
    | array element =>
      rw [base] at inner
      cases inner
    | null => exact .inl rfl

/-- After some operands are bound, what is passed is what was passed before and what the operands
stand for, the temporary apart. -/
theorem mem_bind_iff : value ∈ (scope.bind temporary instruction arguments operands).1.map (·.value) ↔
    value ∈ arguments.map (·.value) ∨
      some value ≠ temporary ∧ ∃ entry ∈ operands, scope.usage.root entry.1 = value := by
  obtain ⟨fresh, all, added⟩ := scope.bind_extends temporary instruction arguments operands
  constructor
  · rw [all, List.map_append, List.mem_append]
    refine Or.imp_right fun member => ?_
    obtain ⟨argument, among, rfl⟩ := List.mem_map.mp member
    obtain ⟨fed, entry, listed, same⟩ := added argument among
    exact ⟨fed, entry, listed, same.symm⟩
  · rintro (before | ⟨fed, entry, listed, rfl⟩)
    · rw [all, List.map_append]
      exact List.mem_append_left _ before
    · have asked : some (scope.usage.root entry.1) ∈
          operands.map fun entry => some (scope.usage.root entry.1) := List.mem_map_of_mem listed
      rw [← resolve_bind scope temporary instruction arguments operands] at asked
      obtain ⟨slot, _, resolved⟩ := List.mem_map.mp asked
      cases slot with
      | temporary => exact absurd resolved.symm fed
      | argument index => exact List.mem_of_getElem? resolved

end Scope

/-- The values that operands stand for, each once, without the temporary and those passed
already. -/
def unpassed (root : Var → Var) (temporary : Option Var) (passed operands : List Var) : List Var :=
  ((operands.map root).filter fun value => decide (some value ≠ temporary ∧ value ∉ passed)).dedup

theorem mem_unpassed_iff {root : Var → Var} {passed : List Var} :
    value ∈ unpassed root temporary passed read ↔
      (∃ operand ∈ read, root operand = value) ∧ some value ≠ temporary ∧ value ∉ passed := by
  simp [unpassed]

namespace Scope

theorem registers_bind (distinct : (arguments.map (·.value)).Nodup)
    (alike : ∀ operand, operand ∈ read ↔ operand ∈ operands.map Prod.fst) :
    scope.registers (scope.bind temporary instruction arguments operands).1 =
      scope.registers arguments +
        ((unpassed scope.usage.root temporary (arguments.map (·.value)) read).map fun value =>
          (scope.method.typeOf value).width).sum := by
  have parts : ((scope.bind temporary instruction arguments operands).1.map (·.value)).Perm
      (arguments.map (·.value) ++
        unpassed scope.usage.root temporary (arguments.map (·.value)) read) := by
    refine (List.perm_ext_iff_of_nodup (nodup_bind distinct) ?_).mpr fun value => ?_
    · refine List.nodup_append'.mpr ⟨distinct, List.nodup_dedup _, fun value before added => ?_⟩
      exact (mem_unpassed_iff.mp added).2.2 before
    · have stands : (∃ entry ∈ operands, scope.usage.root entry.1 = value) ↔
          ∃ operand ∈ read, scope.usage.root operand = value := by
        simp only [alike, List.mem_map, exists_exists_and_eq_and]
      rw [mem_bind_iff, List.mem_append, mem_unpassed_iff, stands]
      by_cases passed : value ∈ arguments.map (·.value)
      · exact iff_of_true (.inl passed) (.inl passed)
      · simp only [passed, false_or, not_false_eq_true, and_true]
        exact and_comm
  rw [registers_eq, registers_eq, ← List.sum_append, ← List.map_append]
  exact (parts.map _).sum_eq

end Scope

/-- An operation does not fit if its operands do not, or if they need too many registers. -/
theorem unfit_of_fits (distinct : (window.arguments.map (·.value)).Nodup)
    (fails : window.fits scope instruction = false) :
    scope.Unfit window.temporaryValue instruction window.arguments
        (window.operandsInOrder scope instruction).zipIdx ∨
      scope.limits.maxRegisters < scope.registers window.arguments +
        ((unpassed scope.usage.root window.temporaryValue (window.arguments.map (·.value))
          instruction.operands).map fun value => (scope.method.typeOf value).width).sum := by
  unfold fits at fails
  split at fails
  · rename_i fitted fit
    have alike (operand : Var) : operand ∈ instruction.operands ↔
        operand ∈ (window.operandsInOrder scope instruction).zipIdx.map Prod.fst := by
      rw [List.zipIdx_map_fst]
      exact ((reordered_operandsInOrder window scope instruction).mem_iff operand).symm
    refine .inr ?_
    rw [← Scope.registers_bind distinct alike, Scope.bind_fit fit]
    simpa using fails
  · rename_i fit
    exact .inl (Scope.unfit_of_fit fit)

/-- What a window without a waiting instance rejects. -/
theorem rejected_cases (settled : window.pending = none)
    (solid : instruction.isTransparent = false)
    (refused : window.admits scope instruction = false) :
    instruction.role = .unsupported ∨
      (∃ kind target, instruction.opcode = .call kind target false) ∨
      (∃ kind target relocatable, instruction.opcode = .call kind target relocatable ∧
        target.isConstructor = true) ∨
      instruction.isOperation = true ∧ (window.overwrites scope instruction = true ∨
        window.fits scope instruction = false) := by
  have constructs : window.constructsPending scope instruction = true := by
    simp [constructsPending, settled]
  rcases Role.isOperation_or_isTransparent_or_unsupported instruction.role with
    operates | transparent | unsupported
  · -- What is none of the other three is admitted.
    by_contra others
    simp only [not_or, not_and, not_exists, Bool.not_eq_true, Bool.not_eq_false] at others
    obtain ⟨_, pinned, plain, passes⟩ := others
    obtain ⟨keeps, fits⟩ := passes operates
    refine Bool.eq_false_iff.mp refused
      (admits_iff.mpr ⟨operates, keeps, constructs, fun _ => fits, ?_⟩)
    intro kind target relocatable opcode
    cases relocatable with
    | false => exact absurd opcode (pinned kind target)
    | true => simp [callMoves, plain kind target true opcode]
  · rw [Instruction.isTransparent, transparent] at solid
    cases solid
  · exact .inl unsupported

end Outlining.Window
