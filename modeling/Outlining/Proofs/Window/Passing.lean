import Outlining.Proofs.Window.Parameter
import Outlining.Proofs.Window.Shape

/-! A window passes each value once, in the order in which its slots first refer to the arguments,
and never more registers than allowed. Where operands are as wide as they are declared, the
parameters fill as many registers as the values passed. -/
namespace Outlining

open Outlining.Bytecode Outlining.Template Outlining.Window

/-- The argument that a slot refers to. -/
def Template.Slot.index? : Slot → Option Nat
  | .temporary => none
  | .argument index => some index

namespace Window

variable {scope : Scope} {method : Method} {limits : Limits} {block : Block} {temporary : Option Var}
  {instruction : Instruction} {operation : Operation} {operands : List (Var × Nat)}
  {arguments : List Argument} {before : List Slot} {taken : List Instruction} {window : Window}
  {candidate : Candidate} {place : Nat} {label : Label} {start : Nat}

theorem eraseDups_concat (indices : List Nat) (index : Nat) :
    (indices ++ [index]).eraseDups =
      if index ∈ indices then indices.eraseDups else indices.eraseDups ++ [index] := by
  rw [List.eraseDups_append]
  split
  · rename_i known
    simp [List.removeAll, known]
  · rename_i new
    simp [List.removeAll, new]
    rfl

namespace Scope

theorem nodup_bind (distinct : (arguments.map (·.value)).Nodup) :
    ((scope.bind temporary instruction arguments operands).1.map (·.value)).Nodup := by
  induction operands generalizing arguments with
  | nil => exact distinct
  | cons entry operands inductionHypothesis =>
    obtain ⟨_, _, binds, step⟩ := scope.exists_binds temporary instruction arguments entry operands
    rw [step]
    exact inductionHypothesis (binds.nodup distinct)

/-- A slot that refers to an argument refers to a known one or to the next. -/
theorem Binds.eraseDups {entry : Var × Nat} {next : List Argument} {slot : Slot}
    (binds : scope.Binds temporary instruction arguments entry next slot)
    (known : (before.filterMap (·.index?)).eraseDups = List.range arguments.length) :
    ((before ++ [slot]).filterMap (·.index?)).eraseDups = List.range next.length := by
  have listed_iff (index : Nat) : index ∈ before.filterMap (·.index?) ↔ index < arguments.length := by
    rw [← List.mem_eraseDups, known, List.mem_range]
  rw [List.filterMap_append]
  cases binds with
  | temporary => simpa [Slot.index?] using known
  | @known index _ _ found =>
    have listed := (listed_iff index).mpr (List.getElem?_eq_some_iff.mp found).1
    exact (eraseDups_concat _ _).trans ((if_pos listed).trans known)
  | fresh =>
    have new := (listed_iff arguments.length).not.mpr (Nat.lt_irrefl _)
    rw [List.length_append, List.length_singleton, List.range_succ, ← known]
    exact (eraseDups_concat _ _).trans (if_neg new)

/-- Slots that refer to the arguments in order are followed by slots that do so. -/
theorem eraseDups_bind
    (known : (before.filterMap (·.index?)).eraseDups = List.range arguments.length) :
    ((before ++ (scope.bind temporary instruction arguments operands).2).filterMap
        (·.index?)).eraseDups =
      List.range (scope.bind temporary instruction arguments operands).1.length := by
  induction operands generalizing arguments before with
  | nil => simpa [bind] using known
  | cons entry operands inductionHypothesis =>
    obtain ⟨_, _, binds, step⟩ := scope.exists_binds temporary instruction arguments entry operands
    rw [step, List.append_cons]
    exact inductionHypothesis (binds.eraseDups known)

theorem registers_eq (scope : Scope) (arguments : List Argument) :
    scope.registers arguments =
      ((arguments.map (·.value)).map fun value => (scope.method.typeOf value).width).sum := by
  induction arguments with
  | nil => rfl
  | cons argument arguments inductionHypothesis =>
    rw [List.map_cons, List.map_cons, List.sum_cons, ← inductionHypothesis]
    rfl

end Scope

theorem Grown.nodup_arguments (grown : Grown scope taken window) :
    (window.arguments.map (·.value)).Nodup := by
  induction grown with
  | start => exact List.nodup_nil
  | literal _ _ _ inductionHypothesis => exact inductionHypothesis
  | refinement _ _ _ inductionHypothesis =>
    rw [arguments_takeRefinement]
    exact inductionHypothesis
  | operation _ _ _ inductionHypothesis =>
    rw [arguments_takeOperation]
    exact Scope.nodup_bind inductionHypothesis

/-- The slots of a window refer to its arguments in order. -/
theorem Grown.eraseDups_slots (grown : Grown scope taken window) :
    (window.slots.filterMap (·.index?)).eraseDups = List.range window.arguments.length := by
  induction grown with
  | start => rfl
  | literal _ _ _ inductionHypothesis => exact inductionHypothesis
  | refinement _ _ _ inductionHypothesis =>
    rw [arguments_takeRefinement, slots_takeRefinement]
    exact inductionHypothesis
  | operation _ _ _ inductionHypothesis =>
    rw [arguments_takeOperation, slots_takeOperation]
    exact Scope.eraseDups_bind inductionHypothesis

/-- Operands that change places are declared alike, and ask for the same parameters. -/
theorem Reordered.exists_place {order : List Var} {operand : Var}
    (reordered : Reordered instruction order) (read : order[place]? = some operand) :
    ∃ other, instruction.operands[other]? = some operand ∧
      (∀ type, parameterType type instruction place = parameterType type instruction other) ∧
      ∀ operation, Operation.ofInstruction? instruction = some operation →
        operation.operandType? place = operation.operandType? other := by
  cases reordered with
  | same => exact ⟨place, read, fun _ => rfl, fun _ _ => rfl⟩
  | @swapped op numeric left right opcode commutes operands =>
    have alike (other : Nat) (type : ValueType) :
        parameterType type instruction place = parameterType type instruction other := by
      simp [parameterType, opcode]
    have declared (other : Nat) (first : place < 2) (second : other < 2) (operation : Operation)
        (does : Operation.ofInstruction? instruction = some operation) :
        operation.operandType? place = operation.operandType? other := by
      simp only [Operation.ofInstruction?, opcode, Option.ite_none_right_eq_some,
        Option.some.injEq] at does
      obtain ⟨_, rfl⟩ := does
      simp [Operation.operandType?, first, second]
    rw [operands]
    rcases place with _ | _ | place
    · exact ⟨1, read, alike 1, declared 1 (by decide) (by decide)⟩
    · exact ⟨0, read, alike 0, declared 0 (by decide) (by decide)⟩
    · cases read

/-- Whether the class and the interfaces that a value is known by are named as classes are. -/
def Named (type : ValueType) : Prop :=
  ∀ cls interfaces, type = .object cls interfaces →
    cls.isClass = true ∧ ∀ interface ∈ interfaces, interface.isClass = true

theorem named_typeOf (named : ∀ type ∈ method.types, Named type) (value : Var) :
    Named (method.typeOf value) := by
  unfold Method.typeOf
  rw [List.getD_eq_getElem?_getD]
  cases listed : method.types[value]? with
  | none => exact fun cls interfaces other => by cases other
  | some type => exact named type (List.mem_of_getElem? listed)

theorem width_passedAs {type : ValueType} {declared : Descriptor} (named : Named type)
    (agrees : type.width = declared.width) : (passedAs declared type).width = type.width := by
  cases type with
  | number numeric =>
    cases numeric with
    | int => exact agrees.symm
    | long | float | double => rfl
  | object cls interfaces =>
    obtain ⟨class_, interface_⟩ := named cls interfaces rfl
    unfold passedAs
    split
    · rename_i interface same
      cases same
      split
      · exact width_of_isClass (interface_ _ (List.mem_singleton_self _))
      · exact width_of_isClass class_
    · rename_i same
      cases same
      exact width_of_isClass class_
    all_goals rename_i other; cases other
  | array element =>
    dsimp only [passedAs, ValueType.descriptor?]
    cases element.descriptor? with
    | none => exact agrees.symm
    | some descriptor => exact width_arrayOf descriptor
  | null => exact agrees.symm

/-- The parameter for a value that is as wide as its operand is declared is as wide as the value. -/
theorem width_parameterType {type : ValueType} {declared : Descriptor} (named : Named type)
    (does : Operation.ofInstruction? instruction = some operation)
    (asks : operation.operandType? place = some declared) (agrees : type.width = declared.width) :
    (parameterType type instruction place).width = type.width := by
  rcases parameterType_cases does asks with ⟨_, _, same⟩ | same
  · rw [same, agrees]
  · rw [same, width_passedAs named agrees]

/-- What a candidate passes to its outline, under the limits. -/
structure Candidate.Passes (candidate : Candidate) (method : Method) (limits : Limits)
    (block : Block) : Prop where
  distinct : candidate.arguments.Nodup
  read : ∀ value ∈ candidate.arguments, ∃ instruction ∈ candidate.covered block,
    instruction.isOperation = true ∧
    ∃ operand ∈ instruction.operands, (Usage.ofMethod method).root operand = value
  /-- The slots refer to the arguments in their order, whenever one is referred to first. -/
  ordered : (candidate.template.slots.filterMap (·.index?)).eraseDups =
    List.range candidate.arguments.length
  typed : candidate.template.argumentTypes.length = candidate.arguments.length
  registers : candidate.registers =
    (candidate.arguments.map fun value => (method.typeOf value).width).sum
  budget : candidate.registers ≤ limits.maxRegisters

/-- Whether every operand is as wide as it is declared. -/
def WidthsAgree (method : Method) (instructions : List Instruction) : Prop :=
  ∀ instruction ∈ instructions, ∀ operation,
    Operation.ofInstruction? instruction = some operation → ∀ place operand declared,
      instruction.operands[place]? = some operand → operation.operandType? place = some declared →
      (method.typeOf ((Usage.ofMethod method).root operand)).width = declared.width

theorem Closed.exists_operand
    (closed : Closed (.ofMethod method limits) label start taken window candidate)
    {argument : Argument} (passed : argument ∈ window.arguments) :
    ∃ instruction ∈ trim taken, instruction.isOperation = true ∧ ∃ operation place operand declared,
      Operation.ofInstruction? instruction = some operation ∧
      instruction.operands[place]? = some operand ∧
      operation.operandType? place = some declared ∧
      (Usage.ofMethod method).root operand = argument.value ∧
      argument.type = parameterType (method.typeOf argument.value) instruction place := by
  obtain ⟨rows, wired⟩ := closed.grown.wired closed.bare
  obtain ⟨index, inside, same⟩ := List.mem_iff_getElem.mp passed
  have listed := closed.grown.argument_mem_slots inside
  rw [← wired.slots] at listed
  obtain ⟨row, inRows, listed⟩ := List.mem_flatMap.mp listed
  obtain ⟨slot, listed⟩ := List.mem_iff_getElem?.mp listed
  obtain ⟨produced, known⟩ := wired.of_mem inRows
  obtain ⟨order, reordered, reads⟩ := known.reads
  obtain ⟨operand, other, read, found, value, typed⟩ := known.operand_of_argument reads listed
  obtain rfl : other = argument := by
    rw [List.getElem?_eq_getElem inside, same] at found
    exact (Option.some.inj found).symm
  obtain ⟨place, there, alike, declares⟩ := reordered.exists_place read
  have does := ofInstruction?_eq known.operates
  have arity := length_operands known.operates (closed.bare _ (wired.mem_taken inRows))
  obtain ⟨declared, asks⟩ := exists_operandType
    (arity ▸ (List.getElem?_eq_some_iff.mp there).1)
  have covered : row.1 ∈ (trim taken).filter (·.isOperation) := by
    rw [filter_isOperation_trim, ← wired.operations]
    exact List.mem_map_of_mem inRows
  exact ⟨row.1, (List.mem_filter.mp covered).1, known.operates, _, place, operand, declared, does,
    there, asks, value.symm, typed.trans (alike _)⟩

section Closed

variable {before after : List Instruction}
  (split : block.instructions = before ++ taken ++ after)
  (closed : Closed (.ofMethod method limits) block.label before.length taken window candidate)
include closed

theorem Closed.registers_eq : candidate.registers =
    (candidate.arguments.map fun value => (method.typeOf value).width).sum := by
  rw [closed.arguments_eq, closed.same]
  exact Scope.registers_eq _ _

include split

theorem Closed.passes : candidate.Passes method limits block := by
  constructor
  case distinct => exact closed.arguments_eq ▸ closed.grown.nodup_arguments
  case read =>
    intro value passed
    rw [closed.arguments_eq] at passed
    obtain ⟨argument, among, rfl⟩ := List.mem_map.mp passed
    obtain ⟨instruction, member, operates, _, place, operand, _, _, there, _, value, _⟩ :=
      closed.exists_operand among
    exact ⟨instruction, closed.covered_eq split ▸ member, operates, operand,
      List.mem_of_getElem? there, value⟩
  case ordered =>
    rw [closed.slots_eq, closed.arguments_eq, List.length_map]
    exact closed.grown.eraseDups_slots
  case typed => rw [closed.argumentTypes_eq, closed.arguments_eq, List.length_map, List.length_map]
  case registers => exact closed.registers_eq
  case budget =>
    rw [closed.same]
    exact closed.grown.registers_le closed.bare

/-- Where operands are as wide as they are declared, every parameter is as wide as its value. -/
theorem Closed.sum_width_argumentTypes (named : ∀ type ∈ method.types, Named type)
    (agrees : WidthsAgree method (candidate.covered block)) :
    (candidate.template.argumentTypes.map (·.width)).sum = candidate.registers := by
  rw [closed.registers_eq, closed.arguments_eq, closed.argumentTypes_eq, List.map_map, List.map_map]
  refine congrArg List.sum (List.map_congr_left fun argument passed => ?_)
  obtain ⟨instruction, member, operates, operation, place, operand, declared, does, there, asks,
    value, typed⟩ := closed.exists_operand passed
  have agree := agrees instruction (closed.covered_eq split ▸ member) operation does place operand
    declared there asks
  rw [value] at agree
  dsimp only [Function.comp]
  rw [typed]
  exact width_parameterType (named_typeOf named argument.value) does asks agree

end Closed

/-- A candidate passes every value once, in the order of its slots and within the registers
allowed; and if every operand is as wide as it is declared, its parameters fill these registers. -/
theorem arguments_passed_in_budget (found : .ok candidate ∈ method.scan limits) :
    ∃ block ∈ method.blocks, block.label = candidate.block ∧
      candidate.Passes method limits block ∧
      ((∀ type ∈ method.types, Named type) → WidthsAgree method (candidate.covered block) →
        (candidate.template.argumentTypes.map (·.width)).sum = candidate.registers) := by
  obtain ⟨block, present, before, taken, after, window, split, _, closed⟩ :=
    closed_of_mem_scan found
  exact ⟨block, present, by rw [closed.same], closed.passes split,
    closed.sum_width_argumentTypes split⟩

/-- A method that reads one argument three times and another one by a refinement of it. -/
def scalesSquare : Method where
  index := 0
  reference := ⟨⟨"LA;"⟩, "m", ⟨.long, [.long, .int]⟩⟩
  types := [.number .long, .number .int, .number .int, .number .long, .number .long]
  blocks := [⟨0, [⟨.argument 0, [], some 0, none⟩, ⟨.argument 1, [], some 1, none⟩,
    ⟨.refine, [1], some 2, none⟩, ⟨.arithmetic .mul .long, [0, 0], some 3, none⟩,
    ⟨.call .static ⟨⟨"LA;"⟩, "f", ⟨.long, [.long, .int, .long]⟩⟩ true, [3, 2, 0], some 4, none⟩,
    ⟨.ret, [4], none, none⟩], [], []⟩]
  synthetic := false

/-- The window that a scan finds in it. -/
def squares : Candidate where
  block := 0
  start := 3
  stop := 5
  template :=
    ⟨[.arithmetic .mul .long, .call ⟨⟨"LA;"⟩, "f", ⟨.long, [.long, .int, .long]⟩⟩ .static true],
      [.long, .int], [.argument 0, .argument 0, .temporary, .argument 1, .argument 0], .long⟩
  arguments := [0, 1]
  registers := 3
  result := some 4
  operations := 2

theorem arguments_of_scalesSquare :
    .ok squares ∈ scalesSquare.scan ⟨1, 9, 3, false⟩ ∧
      ∃ block ∈ scalesSquare.blocks, squares.Passes scalesSquare ⟨1, 9, 3, false⟩ block ∧
        (∀ type ∈ scalesSquare.types, Named type) ∧
        WidthsAgree scalesSquare (squares.covered block) ∧
        (squares.template.argumentTypes.map (·.width)).sum = squares.registers := by
  have found : .ok squares ∈ scalesSquare.scan ⟨1, 9, 3, false⟩ := by decide
  obtain ⟨block, present, _, passes, fills⟩ := arguments_passed_in_budget found
  have named : ∀ type ∈ scalesSquare.types, Named type := by
    intro type listed cls interfaces object
    subst object
    simp [scalesSquare] at listed
  have agrees : WidthsAgree scalesSquare (squares.covered block) := by
    obtain rfl := List.mem_singleton.mp present
    intro instruction member operation does place operand declared read asks
    rcases List.mem_pair.mp member with rfl | rfl
    · cases does
      match place, read with
      | 0, read | 1, read =>
        cases read
        cases asks
        decide
    · cases does
      match place, read with
      | 0, read | 1, read | 2, read =>
        cases read
        cases asks
        decide
  exact ⟨found, block, present, passes, named, agrees, fills named agrees⟩

end Window

end Outlining
