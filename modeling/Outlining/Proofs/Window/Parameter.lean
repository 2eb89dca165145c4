import Outlining.Proofs.Bytecode.Descriptor
import Outlining.Proofs.Window.Candidate

/-! A parameter takes its type from the value that is passed. Where that value has the type that the
operand declares, the parameter is declared like the operand. The exception is an array of a narrow
type: its own type declares it as an array of `int`, and the operand is not asked. -/
namespace Outlining.Window

open Outlining.Bytecode Outlining.Template

variable {instruction : Instruction} {operation : Operation} {declared : Descriptor}
  {type : ValueType} {place : Nat}

theorem exists_operandType (inside : place < operation.arity) :
    ∃ declared, operation.operandType? place = some declared := by
  cases operation with
  | arithmetic op numeric => exact ⟨numeric.descriptor, if_pos inside⟩
  | allocate cls => exact absurd inside (Nat.not_lt_zero place)
  | call target kind keepsResult =>
    simp only [Operation.arity, Reference.arity] at inside
    simp only [Operation.operandType?, Reference.operandType?]
    cases receiver : kind.hasReceiver with
    | false =>
      rw [receiver] at inside
      exact ⟨_, List.getElem?_eq_getElem (by simpa using inside)⟩
    | true =>
      rw [receiver] at inside
      exact ⟨_, List.getElem?_eq_getElem (by simpa [Nat.add_comm] using inside)⟩

/-- The parameter for a value that a call takes as `declared`. -/
def passedAs (declared : Descriptor) : ValueType → Descriptor
  | .object cls [interface] => if cls = .object then interface else cls
  | .object cls _ => cls
  | .array element => (ValueType.array element).descriptor?.getD declared
  | .null | .number .int => declared
  | .number numeric => numeric.descriptor

/-- Arithmetic passes every value as its operand is declared; a call looks at the value. -/
theorem parameterType_cases
    (does : Operation.ofInstruction? instruction = some operation)
    (asks : operation.operandType? place = some declared) :
    (∃ numeric : Numeric, declared = numeric.descriptor ∧
      ∀ type, parameterType type instruction place = declared) ∨
    ∀ type, parameterType type instruction place = passedAs declared type := by
  unfold Operation.ofInstruction? at does
  split at does
  · rename_i op numeric opcode
    split at does
    · cases does
      simp only [Operation.operandType?, Option.ite_none_right_eq_some, Option.some.injEq] at asks
      obtain ⟨_, rfl⟩ := asks
      exact .inl ⟨numeric, rfl, fun type => by rw [parameterType, opcode]⟩
    · cases does
  · cases does
    cases asks
  · rename_i kind target relocatable opcode
    cases does
    have asks : target.operandType? kind place = some declared := asks
    refine .inr fun type => ?_
    simp only [parameterType, opcode, asks]
    unfold passedAs
    cases type with
    | object cls interfaces => rcases interfaces with _ | ⟨interface, _ | _⟩ <;> rfl
    | array element =>
      dsimp only
      cases (ValueType.array element).descriptor? <;> rfl
    | null => rfl
    | number numeric => cases numeric <;> rfl
  · cases does

/-- A value that has the declared type is passed as such, but for arrays of narrow types. -/
theorem passedAs_of_declared (typed : ValueType.ofDescriptor? declared = some type) :
    passedAs declared type = if declared.isArray then declared.widened else declared := by
  have declares := descriptor?_ofDescriptor? typed
  have array := isArray_of_ofDescriptor? typed
  rw [← array]
  rcases ofDescriptor?_cases typed with ⟨element, rfl⟩ | ⟨numeric, rfl⟩ | ⟨cls, rfl⟩
  · rw [passedAs, declares]
    rfl
  · by_cases int : numeric = .int
    · subst int
      rfl
    · have known := widened_of_ne_int typed array.symm (by simpa using int)
      rw [known] at declares
      cases numeric with
      | int => exact absurd rfl int
      | long | float | double => exact Option.some.inj declares
  · have known := widened_of_ne_int typed array.symm (by simp)
    rw [known] at declares
    exact Option.some.inj declares

theorem parameterType_of_declared
    (does : Operation.ofInstruction? instruction = some operation)
    (asks : operation.operandType? place = some declared)
    (typed : ValueType.ofDescriptor? declared = some type) :
    parameterType type instruction place = if declared.isArray then declared.widened else declared := by
  rcases parameterType_cases does asks with ⟨numeric, rfl, same⟩ | same
  · rw [same]
    cases numeric <;> rfl
  · rw [same, passedAs_of_declared typed]

theorem parameterType_eq_declared_iff
    (does : Operation.ofInstruction? instruction = some operation)
    (asks : operation.operandType? place = some declared)
    (typed : ValueType.ofDescriptor? declared = some type) :
    parameterType type instruction place = declared ↔ declared.isNarrowArray = false := by
  rw [parameterType_of_declared does asks typed, Descriptor.isNarrowArray]
  cases declared.isArray with
  | false => simp
  | true => simpa using widened_eq_self_iff declared

/-- The operations that a candidate covers in its block, each with its part of the wiring. -/
def Candidate.rows (candidate : Candidate) (block : Block) :
    List (Instruction × Operation × List Slot) :=
  (((block.instructions.drop candidate.start).take (candidate.stop - candidate.start)).filter
    (·.isOperation)).zip candidate.template.wiring

theorem Closed.rows_eq {scope : Scope} {block : Block} {before taken after : List Instruction}
    {window : Window} {candidate : Candidate} {rows : List (Instruction × List Slot)}
    (split : block.instructions = before ++ taken ++ after)
    (closed : Closed scope block.label before.length taken window candidate)
    (wired : Wired scope taken window rows) :
    candidate.rows block = rows.map fun row => (row.1, row.1.operation, row.2) := by
  rw [Candidate.rows, split, closed.same]
  simp only [Nat.add_sub_cancel_left]
  rw [drop_take_trim, filter_isOperation_trim, ← wired.operations, wired.wiring closed.bare,
    List.zip_map']

theorem Row.operand_of_argument {scope : Scope} {arguments : List Argument} {produced : Option Var}
    {slots : List Slot} {order : List Var} {index : Nat}
    (row : Row scope arguments produced instruction slots)
    (reads : slots.map (·.resolve? (arguments.map (·.value)) produced) =
      order.map fun operand => some (scope.usage.root operand))
    (wired : slots[place]? = some (.argument index)) :
    ∃ operand argument, order[place]? = some operand ∧ arguments[index]? = some argument ∧
      argument.value = scope.usage.root operand ∧
      argument.type = parameterType (scope.method.typeOf argument.value) instruction place := by
  obtain ⟨argument, found, typed⟩ := row.typed place index wired
  have resolved := congrArg (·[place]?) reads
  simp only [List.getElem?_map, wired, Option.map_some, Slot.resolve?, found] at resolved
  obtain ⟨operand, read, same⟩ := Option.map_eq_some_iff.mp resolved.symm
  exact ⟨operand, argument, read, found, (Option.some.inj same).symm, typed⟩

/-- The parameter of an outline for a value that has the type its operand declares: it is declared
like the operand unless that is an array of a narrow type. -/
theorem parameter_declared_iff {method : Method} {limits : Limits} {candidate : Candidate}
    (found : .ok candidate ∈ method.scan limits) :
    (∃ block ∈ method.blocks, block.label = candidate.block ∧
      (candidate.rows block).map Prod.snd = candidate.template.wiring ∧
      ∀ instruction operation slots, (instruction, operation, slots) ∈ candidate.rows block →
        Operation.ofInstruction? instruction = some operation ∧
        ∃ order, Reordered instruction order ∧
          ∀ place index, slots[place]? = some (.argument index) →
            ∃ operand declared type,
              order[place]? = some operand ∧
              operation.operandType? place = some declared ∧
              candidate.arguments[index]? = some ((Usage.ofMethod method).root operand) ∧
              candidate.template.argumentTypes[index]? = some type ∧
              (ValueType.ofDescriptor? declared =
                  some (method.typeOf ((Usage.ofMethod method).root operand)) →
                (type = declared ↔ declared.isNarrowArray = false))) ∧
    ∀ prototype, candidate.template.signature = .ok prototype →
      prototype.parameters = candidate.template.argumentTypes := by
  obtain ⟨block, present, before, taken, after, window, split, _, closed⟩ :=
    closed_of_mem_scan found
  obtain ⟨rows, wired⟩ := closed.grown.wired closed.bare
  have listed := closed.rows_eq split wired
  refine ⟨⟨block, present, by rw [closed.same], ?_, ?_⟩, ?_⟩
  · rw [listed, closed.same, List.map_map]
    exact (wired.wiring closed.bare).symm
  · intro instruction operation slots member
    rw [listed] at member
    obtain ⟨row, inRows, same⟩ := List.mem_map.mp member
    cases same
    obtain ⟨produced, known⟩ := wired.of_mem inRows
    obtain ⟨order, reordered, reads⟩ := known.reads
    have does := ofInstruction?_eq known.operates
    refine ⟨does, order, reordered, fun place index slot => ?_⟩
    obtain ⟨operand, argument, read, passed, value, typed⟩ := known.operand_of_argument reads slot
    have inside : place < row.1.operation.arity := by
      rw [← length_operands known.operates (closed.bare _ (wired.mem_taken inRows)),
        ← length_row known]
      exact (List.getElem?_eq_some_iff.mp slot).1
    obtain ⟨declared, asks⟩ := exists_operandType inside
    refine ⟨operand, declared, argument.type, read, asks, ?_, ?_, fun agrees => ?_⟩
    · have passes : candidate.arguments[index]? = some argument.value := by
        simp [closed.same, passed]
      rw [passes, value]
      rfl
    · simp [closed.same, template, passed]
    · rw [typed, value]
      exact parameterType_eq_declared_iff does asks agrees
  · intro prototype signed
    unfold Template.signature at signed
    split at signed
    · cases signed
    · cases signed
      rfl

/-- A method that passes an array of booleans on. -/
def passesBooleans : Method where
  index := 0
  reference := ⟨⟨"LA;"⟩, "m", ⟨.void, [⟨"[Z"⟩]⟩⟩
  types := [.array (.number .int)]
  blocks := [⟨0, [⟨.argument 0, [], some 0, none⟩,
    ⟨.call .static ⟨⟨"LA;"⟩, "f", ⟨.void, [⟨"[Z"⟩]⟩⟩ true, [0], none, none⟩], [], []⟩]
  synthetic := false

/-- The window that a scan finds in it. -/
def booleans : Candidate where
  block := 0
  start := 1
  stop := 2
  template :=
    ⟨[.call ⟨⟨"LA;"⟩, "f", ⟨.void, [⟨"[Z"⟩]⟩⟩ .static false], [⟨"[I"⟩], [.argument 0], .void⟩
  arguments := [0]
  registers := 1
  result := none
  operations := 1

theorem parameter_of_booleans :
    .ok booleans ∈ passesBooleans.scan ⟨1, 9, 5, false⟩ ∧
      ∃ block ∈ passesBooleans.blocks, ∃ instruction operation,
        (instruction, operation, [Slot.argument 0]) ∈ booleans.rows block ∧
        ∃ declared type, operation.operandType? 0 = some declared ∧
          booleans.template.argumentTypes[0]? = some type ∧ type ≠ declared := by
  have found : .ok booleans ∈ passesBooleans.scan ⟨1, 9, 5, false⟩ := by decide
  obtain ⟨⟨block, present, _, _, rows⟩, _⟩ := parameter_declared_iff found
  obtain rfl := List.mem_singleton.mp present
  have listed : booleans.rows ⟨0, [⟨.argument 0, [], some 0, none⟩,
      ⟨.call .static ⟨⟨"LA;"⟩, "f", ⟨.void, [⟨"[Z"⟩]⟩⟩ true, [0], none, none⟩], [], []⟩ =
      [(⟨.call .static ⟨⟨"LA;"⟩, "f", ⟨.void, [⟨"[Z"⟩]⟩⟩ true, [0], none, none⟩,
        .call ⟨⟨"LA;"⟩, "f", ⟨.void, [⟨"[Z"⟩]⟩⟩ .static false, [.argument 0])] := by decide
  have row := listed ▸ List.mem_singleton_self _
  obtain ⟨_, order, reordered, wired⟩ := rows _ _ _ row
  obtain ⟨operand, declared, type, read, asks, passed, parameter, exact⟩ := wired 0 0 rfl
  obtain rfl : declared = ⟨"[Z"⟩ := by
    cases asks
    rfl
  refine ⟨found, _, present, _, _, row, _, type, asks, parameter, fun same => ?_⟩
  have narrow := (exact ?_).mp same
  · exact absurd narrow (by decide)
  · have root : (Usage.ofMethod passesBooleans).root operand = 0 := by
      simpa [booleans] using passed.symm
    rw [root]
    decide

end Outlining.Window
