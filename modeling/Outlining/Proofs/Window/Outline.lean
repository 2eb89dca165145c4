import Outlining.Proofs.Bytecode.Typed
import Outlining.Proofs.Window.Candidate

namespace Outlining

open Outlining.Bytecode Outlining.Template

namespace Window

variable {scope : Scope} {taken : List Instruction} {instruction : Instruction}
  {window : Window} {rows : List (Instruction × List Slot)} {label : Label} {start : Nat}
  {candidate : Candidate}

theorem isTyped_declared {declared : Option Descriptor} {fallback : Descriptor}
    (typed : ∀ descriptor, declared = some descriptor → descriptor.IsTyped)
    (safe : fallback.IsTyped) : (declared.getD fallback).IsTyped := by
  cases declared with
  | none => exact safe
  | some descriptor => exact typed descriptor rfl

/-- The type that a call declares for an operand. -/
def declaredType? (instruction : Instruction) (place : Nat) : Option Descriptor :=
  match instruction.opcode with
  | .call kind target _ => target.operandType? kind place
  | _ => none

theorem isTyped_of_declaredType? {place : Nat} {descriptor : Descriptor}
    (well : instruction.IsTyped) (asks : declaredType? instruction place = some descriptor) : descriptor.IsTyped := by
  unfold declaredType? at asks
  unfold Instruction.IsTyped at well
  split at asks
  · rename_i opcode
    rw [opcode] at well
    exact well.operandType asks
  · cases asks

theorem isTyped_parameterType {type : ValueType} (typed : type.IsTyped)
    (well : instruction.IsTyped) (place : Nat) :
    (parameterType type instruction place).IsTyped := by
  unfold parameterType
  have asked (descriptor : Descriptor)
      (asks : declaredType? instruction place = some descriptor) : descriptor.IsTyped :=
    isTyped_of_declaredType? well asks
  split
  · exact Numeric.isTyped_descriptor _
  · dsimp only
    split
    · split
      · exact typed.2 _ (by simp)
      · exact typed.1
    · exact typed.1
    · refine isTyped_declared (fun descriptor known => ?_) (by rfl)
      rcases Option.or_eq_some_iff.mp known with declares | ⟨_, asks⟩
      · exact typed.descriptor declares
      · exact asked descriptor asks
    · exact isTyped_declared asked (by rfl)
    · exact isTyped_declared asked (by rfl)
    · exact Numeric.isTyped_descriptor _

theorem isTyped_operation (operates : instruction.isOperation = true)
    (well : instruction.IsTyped) : instruction.operation.IsTyped := by
  rcases Instruction.isOperation_cases operates with role | role | role
  · obtain ⟨op, numeric, _, _, _, opcode, works, _⟩ := Instruction.role_eq_arithmetic_iff.mp role
    simp [Instruction.operation, Operation.ofInstruction?, opcode, works, Operation.IsTyped]
  · obtain ⟨cls, _, opcode, _⟩ := Instruction.role_eq_allocation_iff.mp role
    simp [Instruction.operation, Operation.ofInstruction?, opcode, Operation.IsTyped]
  · obtain ⟨kind, target, _, opcode, _, value⟩ := Instruction.role_eq_call_iff.mp role
    simp only [Instruction.operation, Operation.ofInstruction?, opcode, Option.getD_some]
    cases result : instruction.result.isSome with
    | false => trivial
    | true =>
      simp only [Instruction.IsTyped, opcode] at well
      exact well.returnType (value result)

theorem lastResult_eq_none_iff {instructions : List Instruction} :
    lastResult instructions = none ↔ ∀ instruction ∈ instructions, instruction.result = none := by
  simp [lastResult]

theorem Row.exists_resolved {arguments : List Argument} {produced : Option Var}
    {slots : List Slot} (row : Row scope arguments produced instruction slots) {slot : Slot}
    (member : slot ∈ slots) :
    ∃ value, slot.resolve? (arguments.map (·.value)) produced = some value := by
  obtain ⟨order, _, reads⟩ := row.reads
  have image := List.mem_map_of_mem (f := (·.resolve? (arguments.map (·.value)) produced)) member
  rw [reads] at image
  obtain ⟨operand, _, same⟩ := List.mem_map.mp image
  exact ⟨_, same.symm⟩

theorem Wired.fed (wired : Wired scope taken window rows) (bare : Bare taken) :
    Fed window.arguments.length false (window.template (trim taken)).wiring := by
  intro before operation slots after split slot member
  rw [wired.wiring bare, List.map_eq_append_iff] at split
  obtain ⟨earlier, rest, whole, rfl, split⟩ := split
  obtain ⟨row, later, rfl, same, rfl⟩ := List.map_eq_cons_iff.mp split
  cases same
  obtain ⟨value, resolved⟩ := (wired.row earlier row later whole).exists_resolved member
  cases slot with
  | argument index =>
    have inside := (List.getElem?_eq_some_iff.mp resolved).1
    simpa [Slot.IsFed] using inside
  | temporary =>
    simp only [Slot.resolve?] at resolved
    simp only [Slot.IsFed, Bool.false_or]
    by_contra silent
    have none : lastResult (earlier.map Prod.fst) = none := by
      rw [lastResult_eq_none_iff]
      intro instruction present
      obtain ⟨other, listed, rfl⟩ := List.mem_map.mp present
      have present : other ∈ rows := by simp [whole, listed]
      obtain ⟨_, known⟩ := wired.of_mem present
      by_contra produces
      apply silent
      rw [List.any_eq_true]
      refine ⟨_, List.mem_map_of_mem listed, ?_⟩
      rw [hasResult_operation known.operates]
      exact Option.isSome_iff_ne_none.mpr produces
    rw [none] at resolved
    cases resolved

theorem Wired.exists_typed (wired : Wired scope taken window rows)
    (grown : Grown scope taken window) {argument : Argument}
    (member : argument ∈ window.arguments) :
    ∃ instruction ∈ taken, ∃ place,
      argument.type = parameterType (scope.method.typeOf argument.value) instruction place := by
  obtain ⟨index, inside, same⟩ := List.mem_iff_getElem.mp member
  have read := grown.argument_mem_slots inside
  rw [← wired.slots] at read
  obtain ⟨row, listed, slot⟩ := List.mem_flatMap.mp read
  obtain ⟨place, slot⟩ := List.mem_iff_getElem?.mp slot
  obtain ⟨produced, known⟩ := wired.of_mem listed
  obtain ⟨other, found, typed⟩ := known.typed place index slot
  obtain rfl : other = argument := by
    rw [List.getElem?_eq_getElem inside, same] at found
    exact (Option.some.inj found).symm
  exact ⟨row.1, wired.mem_taken listed, place, typed⟩

section Typed

variable (closed : Closed scope label start taken window candidate)
  (typed : scope.method.IsTyped) (well : ∀ instruction ∈ taken, instruction.IsTyped)
include closed typed well

theorem Closed.isTyped_arguments : ∀ type ∈ candidate.template.argumentTypes, type.IsTyped := by
  intro type member
  rw [closed.same] at member
  obtain ⟨argument, passed, rfl⟩ := List.mem_map.mp member
  obtain ⟨rows, wired⟩ := closed.grown.wired closed.bare
  obtain ⟨instruction, present, place, asked⟩ := wired.exists_typed closed.grown passed
  rw [asked]
  exact isTyped_parameterType (typed.typeOf _) (well instruction present) place

omit typed in
theorem Closed.isTyped_operations :
    ∀ operation ∈ candidate.template.operations, operation.IsTyped := by
  intro operation member
  rw [closed.same, operations_template] at member
  obtain ⟨instruction, present, rfl⟩ := List.mem_map.mp member
  obtain ⟨present, operates⟩ := List.mem_filter.mp present
  exact isTyped_operation operates (well instruction present)

theorem Closed.wirable : Wirable candidate.template where
  covers := by
    rw [closed.same]
    exact (beq_iff_eq.mp (closed.grown.covers closed.bare)).symm
  passes type member := (closed.isTyped_arguments typed well type member).isVoid_eq_false
  fed := by
    obtain ⟨rows, wired⟩ := closed.grown.wired closed.bare
    rw [closed.same]
    simpa [template] using wired.fed closed.bare
  reads := by
    intro index inside
    rw [closed.same] at inside ⊢
    exact closed.grown.argument_mem_slots (by simpa [template] using inside)
  returns := by
    intro value
    rw [closed.same] at value ⊢
    rw [operations_template]
    cases known : window.temporary with
    | none => simp [template, known, Descriptor.void, Descriptor.isVoid] at value
    | some temporary =>
      have last := (closed.grown.temporary_eq known).1
      obtain ⟨instruction, member, produces⟩ : ∃ instruction ∈ taken.filter (·.isOperation),
          instruction.result ≠ none := by
        by_contra silent
        rw [lastResult_eq_none_iff.mpr fun instruction member => by
          by_contra produces
          exact silent ⟨instruction, member, produces⟩] at last
        cases last
      refine ⟨instruction.operation, List.mem_map_of_mem member, ?_⟩
      rw [hasResult_operation (List.mem_filter.mp member).2]
      exact Option.isSome_iff_ne_none.mpr produces

end Typed

end Window

end Outlining
