import Mathlib.Data.List.Forall2
import Outlining.Proofs.Window.Outline

namespace Outlining

open Outlining.Bytecode Outlining.Template

/-- What the values of an outline stand for: the arguments for the values passed, and the results
of its body, in order, for the given results. -/
def standsFor (passed results : List Var) (value : Var) : Var := (passed ++ results).getD value value

/-- An instruction of an outline does what the given instruction does: its result is renamed to
the same value, and its operands to values with the same roots. The operands of a commutative
operator may be swapped. -/
structure Replays (root rename : Var → Var) (instruction copy : Instruction) : Prop where
  opcode : copy.opcode = instruction.opcode
  result : copy.result.map rename = instruction.result
  operands : ∃ order, Window.Reordered instruction order ∧
    (copy.operands.map rename).map root = order.map root

/-- The body of the called outline does what the given instructions do, where each argument is
renamed to the operand of the call and each result of the body to a result of the instructions.
The value that it returns is renamed to the result of the call. -/
def Unfolds (root : Var → Var) (outline : Method) (call : Instruction)
    (instructions : List Instruction) : Prop :=
  ∃ body returned,
    outline.instructions =
      parameters 0 call.operands.length ++ body ++ [⟨.ret, returned, none, some 0⟩] ∧
    List.Forall₂ (Replays root (standsFor call.operands (results instructions))) instructions body ∧
    returned.map (standsFor call.operands (results instructions)) = call.result.toList

namespace Window

variable {scope : Scope} {taken : List Instruction} {instruction : Instruction}
  {window : Window} {rows : List (Instruction × List Slot)} {label : Label} {start : Nat}
  {candidate : Candidate} {passed results : List Var} {index : Nat} {value : Var}

theorem standsFor_of_passed (found : passed[index]? = some value) :
    standsFor passed results index = value := by
  have inside := (List.getElem?_eq_some_iff.mp found).1
  rw [standsFor, List.getD_eq_getElem?_getD, List.getElem?_append_left inside, found]
  rfl

theorem standsFor_of_result (found : results[index]? = some value) :
    standsFor passed results (passed.length + index) = value := by
  rw [standsFor, List.getD_eq_getElem?_getD, List.getElem?_append_right (Nat.le_add_right _ _),
    Nat.add_sub_cancel_left, found]
  rfl

theorem Grown.relocatable (grown : Grown scope taken window) (member : instruction ∈ taken)
    {kind : CallKind} {target : Reference} {relocatable : Bool}
    (opcode : instruction.opcode = .call kind target relocatable) : relocatable = true := by
  rcases grown.mem_cases member with ⟨prior, admitted⟩ | transparent
  · have moves := (admits_iff.mp admitted).moves kind target relocatable opcode
    rw [callMoves, Bool.and_eq_true] at moves
    exact moves.1
  · rw [Instruction.isTransparent_of_call opcode] at transparent
    cases transparent

theorem opcode_operation (operates : instruction.isOperation = true)
    (moves : ∀ kind target relocatable, instruction.opcode = .call kind target relocatable →
      relocatable = true) : instruction.operation.opcode = instruction.opcode := by
  rcases Instruction.isOperation_cases operates with role | role | role
  · obtain ⟨_, _, _, _, _, opcode, works, _⟩ := Instruction.role_eq_arithmetic_iff.mp role
    simp [Instruction.operation, Operation.ofInstruction?, opcode, works, Operation.opcode]
  · obtain ⟨_, _, opcode, _⟩ := Instruction.role_eq_allocation_iff.mp role
    simp [Instruction.operation, Operation.ofInstruction?, opcode, Operation.opcode]
  · obtain ⟨_, _, relocatable, opcode, _⟩ := Instruction.role_eq_call_iff.mp role
    obtain rfl := moves _ _ _ opcode
    simp [Instruction.operation, Operation.ofInstruction?, opcode, Operation.opcode]

section Values

variable {root rename : Var → Var} {slots : List Slot} {order : List Var}
  {arguments : List Var} {produced temporary : Option Var}

/-- What a slot is resolved to in the body stands for what it is resolved to in the window. -/
theorem exists_resolve (idempotent : ∀ value, root (root value) = root value)
    (passes : passed.map root = arguments.map root)
    (last : temporary.map (standsFor passed results) = produced) {slot : Slot} {operand : Var}
    (resolved : slot.resolve? arguments produced = some (root operand)) :
    ∃ copy, slot.resolve? (List.range passed.length) temporary = some copy ∧
      root (standsFor passed results copy) = root operand := by
  cases slot with
  | temporary =>
    have resolved : produced = some (root operand) := resolved
    rw [resolved] at last
    obtain ⟨copy, known, renamed⟩ := Option.map_eq_some_iff.mp last
    exact ⟨copy, known, by rw [renamed, idempotent]⟩
  | argument index =>
    have resolved : arguments[index]? = some (root operand) := resolved
    have both := congrArg (·[index]?) passes
    simp only [List.getElem?_map, resolved, Option.map_some, Option.map_eq_some_iff] at both
    obtain ⟨value, found, same⟩ := both
    have inside := (List.getElem?_eq_some_iff.mp found).1
    exact ⟨index, by simp [Slot.resolve?, inside],
      by rw [standsFor_of_passed found, same, idempotent]⟩

theorem map_root_resolve {resolve replayed : Slot → Option Var}
    (reads : slots.map resolve = order.map fun operand => some (root operand))
    (stands : ∀ slot operand, resolve slot = some (root operand) →
      ∃ copy, replayed slot = some copy ∧ root (rename copy) = root operand) :
    ((slots.filterMap replayed).map rename).map root = order.map root := by
  induction slots generalizing order with
  | nil =>
    obtain rfl : order = [] := by simpa using reads.symm
    rfl
  | cons slot slots inductionHypothesis =>
    cases order with
    | nil => simp at reads
    | cons operand order =>
      simp only [List.map_cons, List.cons.injEq] at reads
      obtain ⟨copy, known, same⟩ := stands slot operand reads.1
      rw [List.filterMap_cons_some known, List.map_cons, List.map_cons, List.map_cons, same,
        inductionHypothesis reads.2]

end Values

/-- The rest of the body replays the rest of the rows; so many results were produced before, the
last of them the value `temporary` of the body. -/
theorem forall₂_replays_encode {root : Var → Var} {arguments : List Argument}
    (idempotent : ∀ value, root (root value) = root value)
    (passes : passed.map root = (arguments.map (·.value)).map root)
    (same : scope.usage.root = root) (done : List (Instruction × List Slot))
    {todo : List (Instruction × List Slot)}
    (wired : ∀ before row after, done ++ todo = before ++ row :: after →
      Row scope arguments (lastResult (before.map Prod.fst)) row.1 row.2)
    (moves : ∀ row ∈ todo, row.1.operation.opcode = row.1.opcode) {temporary : Option Var}
    (all : results = Bytecode.results ((done ++ todo).map Prod.fst))
    (last : temporary.map (standsFor passed results) = lastResult (done.map Prod.fst)) :
    List.Forall₂ (Replays root (standsFor passed results)) (todo.map Prod.fst)
      (encode (List.range passed.length)
        (passed.length + (Bytecode.results (done.map Prod.fst)).length) temporary
        (todo.map fun row => (row.1.operation, row.2))) := by
  induction todo generalizing done temporary with
  | nil => exact .nil
  | cons row todo inductionHypothesis =>
    have known := wired done row todo rfl
    obtain ⟨order, reordered, reads⟩ := known.reads
    have produces := hasResult_operation known.operates
    have renamed : (if row.1.operation.hasResult then
        some (passed.length + (Bytecode.results (done.map Prod.fst)).length) else none).map
          (standsFor passed results) = row.1.result := by
      rw [produces]
      cases result : row.1.result with
      | none => rfl
      | some value =>
        have found : results[(Bytecode.results (done.map Prod.fst)).length]? = some value := by
          rw [all, List.map_append, results_append, List.map_cons, results_cons_of_some result,
            List.getElem?_append_right (Nat.le_refl _), Nat.sub_self]
          rfl
        exact congrArg some (standsFor_of_result found)
    have split : (done ++ [row]) ++ todo = done ++ row :: todo := by simp
    have count : (Bytecode.results ((done ++ [row]).map Prod.fst)).length =
        (Bytecode.results (done.map Prod.fst)).length + row.1.operation.hasResult.toNat := by
      rw [List.map_append, results_append, List.length_append, produces]
      cases result : row.1.result <;> simp [Bytecode.results, result]
    refine .cons ⟨moves row List.mem_cons_self, renamed, order, reordered, ?_⟩ ?_
    · refine map_root_resolve (same ▸ reads) fun slot operand resolved => ?_
      exact exists_resolve idempotent passes last resolved
    · have rest := @inductionHypothesis (done ++ [row]) (split ▸ wired)
        (fun other member => moves other (List.mem_cons_of_mem _ member))
        ((if row.1.operation.hasResult then
          some (passed.length + (Bytecode.results (done.map Prod.fst)).length) else none).or
            temporary)
        (by rw [all, split])
        (by rw [List.map_append, List.map_singleton, lastResult_append_singleton, Option.map_or,
          renamed, last])
      rw [count, ← Nat.add_assoc] at rest
      exact rest

theorem lastResult_of_replays {root rename : Var → Var} {instructions body : List Instruction}
    (replays : List.Forall₂ (Replays root rename) instructions body) :
    (lastResult body).map rename = lastResult instructions := by
  induction replays with
  | nil => rfl
  | cons first _ inductionHypothesis =>
    rw [lastResult_cons, lastResult_cons, Option.map_or, inductionHypothesis, first.result]

theorem Wired.replays (wired : Wired scope taken window rows) (grown : Grown scope taken window)
    (bare : Bare taken)
    (idempotent : ∀ value, scope.usage.root (scope.usage.root value) = scope.usage.root value)
    (passes : passed.map scope.usage.root =
      (window.arguments.map (·.value)).map scope.usage.root) :
    List.Forall₂ (Replays scope.usage.root
        (standsFor passed (Bytecode.results (taken.filter (·.isOperation)))))
      (taken.filter (·.isOperation))
      (encode (List.range passed.length) passed.length none
        (window.template (trim taken)).wiring) := by
  have moves : ∀ row ∈ rows, row.1.operation.opcode = row.1.opcode := by
    intro row member
    obtain ⟨_, known⟩ := wired.of_mem member
    exact opcode_operation known.operates fun _ _ _ => grown.relocatable (wired.mem_taken member)
  rw [wired.wiring bare, ← wired.operations]
  exact forall₂_replays_encode idempotent passes rfl [] wired.row moves rfl rfl

/-- The outline of a candidate does what the operations of its window do. -/
theorem Closed.unfolds (closed : Closed scope label start taken window candidate)
    (idempotent : ∀ value, scope.usage.root (scope.usage.root value) = scope.usage.root value)
    (typed : scope.method.IsTyped) (well : ∀ instruction ∈ taken, instruction.IsTyped)
    {reference : Reference} {number : MethodIndex} {outline : Method}
    (written : candidate.template.body reference number = .ok outline) {call : Instruction}
    (passes : call.operands.map scope.usage.root = candidate.arguments.map scope.usage.root)
    (result : call.result =
      if candidate.template.returnType.isVoid then none else candidate.result) :
    Unfolds scope.usage.root outline call (taken.filter (·.isOperation)) := by
  obtain ⟨types, more, -, body⟩ := body_eq_ok (closed.wirable typed well)
    (closed.isTyped_arguments typed well) (closed.isTyped_operations well) reference number
  obtain rfl := Except.ok.inj (written.symm.trans body)
  have count := congrArg List.length passes
  rw [List.length_map, List.length_map] at count
  have arity : candidate.template.argumentTypes.length = call.operands.length := by
    rw [count, closed.same]
    simp [template]
  have template : candidate.template = window.template (trim taken) := by rw [closed.same]
  obtain ⟨rows, wired⟩ := closed.grown.wired closed.bare
  have replays := wired.replays closed.grown closed.bare idempotent
    (passes.trans (by rw [closed.same]))
  refine ⟨_, candidate.template.returned, ?_, replays, ?_⟩
  · rw [← template, ← arity]
    exact List.append_nil _
  · have last := lastResult_of_replays replays
    rw [result, returned, arity]
    split
    · rfl
    · rename_i value
      rw [← template] at last
      rw [← Option.toList_map, last, closed.result_eq (Bool.eq_false_iff.mpr value)]

end Window

end Outlining
