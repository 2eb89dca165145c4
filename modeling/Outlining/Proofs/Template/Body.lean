import Outlining.Proofs.Bytecode.Assignment
import Outlining.Proofs.Template.Signature
import Outlining.Template.Body

namespace Outlining

open Outlining.Bytecode Outlining.Template

namespace Bytecode

/-- The result produced last by some instructions. -/
def lastResult (instructions : List Instruction) : Option Var :=
  (instructions.filterMap (·.result)).getLast?

theorem lastResult_append_singleton (instructions : List Instruction)
    (instruction : Instruction) :
    lastResult (instructions ++ [instruction]) =
      instruction.result.or (lastResult instructions) := by
  unfold lastResult
  cases result : instruction.result with
  | none => simp [result]
  | some value => simp [result]

theorem lastResult_cons (instruction : Instruction) (instructions : List Instruction) :
    lastResult (instruction :: instructions) =
      (lastResult instructions).or instruction.result := by
  unfold lastResult
  cases result : instruction.result with
  | none => simp [result]
  | some value =>
    rw [List.filterMap_cons_some result, List.getLast?_cons]
    cases (instructions.filterMap (·.result)).getLast? <;> rfl

namespace Draft

/-- A draft of straight-line code. -/
def straight (reference : Reference) (types : List ValueType) (instructions : List Instruction)
    (arguments : Nat) : Draft :=
  ⟨⟨0, reference, types, [⟨0, instructions, [], []⟩], true⟩, 0, some 0, arguments⟩

variable {reference : Reference} {types : List ValueType} {instructions : List Instruction}
  {arguments : Nat}

theorem start_eq_straight (reference : Reference) :
    { start reference true with line := some 0 } = straight reference [] [] 0 := rfl

theorem emit_straight (opcode : Opcode) (operands : List Var) (type : Option ValueType) :
    (straight reference types instructions arguments).emit opcode operands type =
      (straight reference (types ++ type.toList)
        (instructions ++ [⟨opcode, operands, type.map fun _ => types.length, some 0⟩]) arguments,
        type.map fun _ => types.length) := by
  cases type with
  | none => simp [emit, straight, onCurrent]
  | some type => rfl

theorem argument_straight (type : ValueType) :
    (straight reference types instructions arguments).argument type =
      (straight reference (types ++ [type])
        (instructions ++ [⟨.argument arguments, [], some types.length, some 0⟩]) (arguments + 1),
        some types.length) :=
  emit_straight (.argument arguments) [] (some type)

end Draft

end Bytecode

namespace Template

variable {reference : Reference} {types : List ValueType} {instructions : List Instruction}
  {arguments : Nat} {values : List Var} {wiring : List (Operation × List Slot)}
  {operation : Operation} {temporary : Option Var} {template : Template}

/-- The instructions that read the arguments from number `first` on. -/
def parameters (first : Nat) : Nat → List Instruction
  | 0 => []
  | count + 1 => ⟨.argument first, [], some first, some 0⟩ :: parameters (first + 1) count

theorem readArguments_straight (reference : Reference) (types : List ValueType)
    (instructions : List Instruction) {descriptors : List Descriptor}
    (typed : ∀ descriptor ∈ descriptors, (ValueType.ofDescriptor? descriptor).isSome = true) :
    ∃ more, more.map some = descriptors.map ValueType.ofDescriptor? ∧
      readArguments (.straight reference types instructions types.length) descriptors =
        .ok (.straight reference (types ++ more)
          (instructions ++ parameters types.length descriptors.length)
          (types.length + descriptors.length),
          List.range' types.length descriptors.length) := by
  induction descriptors generalizing types instructions with
  | nil => exact ⟨[], rfl, by simp [readArguments, parameters]⟩
  | cons descriptor descriptors inductionHypothesis =>
    obtain ⟨type, known⟩ := Option.isSome_iff_exists.mp (typed descriptor List.mem_cons_self)
    obtain ⟨more, others, rest⟩ := inductionHypothesis (types ++ [type])
      (instructions ++ [⟨.argument types.length, [], some types.length, some 0⟩])
      fun other member => typed other (List.mem_cons_of_mem _ member)
    refine ⟨type :: more, by rw [List.map_cons, List.map_cons, known, others], ?_⟩
    simp only [List.length_append, List.length_singleton] at rest
    simp only [readArguments, known, Draft.argument_straight, rest]
    simp [parameters, List.range'_succ, Nat.add_comm 1, Nat.add_assoc]

/-- What an instruction of the body does for an operation. -/
def Operation.opcode : Operation → Opcode
  | .arithmetic op numeric => .arithmetic op numeric
  | .allocate cls => .allocate cls
  | .call target kind _ => .call kind target true

/-- Whether the result of an operation, if it has one, has a type. -/
def Operation.IsTyped : Operation → Prop
  | .call target _ true => (ValueType.ofDescriptor? target.prototype.returnType).isSome = true
  | _ => True

theorem Operation.emit_eq (typed : operation.IsTyped) (counted : values.length = operation.arity)
    (draft : Draft) : ∃ type : Option ValueType, type.isSome = operation.hasResult ∧
      operation.emit draft values = .ok (draft.emit operation.opcode values type) := by
  cases operation with
  | arithmetic op numeric => 
    have two : values.length = 2 := counted
    exact ⟨some (.number numeric), rfl, by rw [emit, if_pos two]; rfl⟩
  | allocate cls => exact ⟨some (.object cls []), rfl, rfl⟩
  | call target kind keepsResult =>
    cases keepsResult with
    | false => exact ⟨none, rfl, rfl⟩
    | true => exact ⟨ValueType.ofDescriptor? target.prototype.returnType, typed, rfl⟩

/-- The instructions for the operations, where fresh values are numbered from `next` on. -/
def encode (arguments : List Var) : Nat → Option Var → List (Operation × List Slot) →
    List Instruction
  | _, _, [] => []
  | next, temporary, (operation, slots) :: rest =>
    let result := if operation.hasResult then some next else none
    ⟨operation.opcode, slots.filterMap (·.resolve? arguments temporary), result, some 0⟩ ::
      encode arguments (next + operation.hasResult.toNat) (result.or temporary) rest

theorem Slot.isFed_iff {slot : Slot} : slot.IsFed values.length temporary.isSome ↔
    (slot.resolve? values temporary).isSome = true := by
  cases slot with
  | temporary => rfl
  | argument index => simp [IsFed, resolve?]

private theorem mapM_resolve? {slots : List Slot}
    (fed : ∀ slot ∈ slots, slot.IsFed values.length temporary.isSome) :
    slots.mapM (·.resolve? values temporary) = some (slots.filterMap (·.resolve? values temporary)) ∧
      (slots.filterMap (·.resolve? values temporary)).length = slots.length := by
  induction slots with
  | nil => exact ⟨rfl, rfl⟩
  | cons slot slots inductionHypothesis =>
    obtain ⟨all, count⟩ := inductionHypothesis fun other member =>
      fed other (List.mem_cons_of_mem _ member)
    obtain ⟨value, known⟩ := Option.isSome_iff_exists.mp
      (Slot.isFed_iff.mp (fed slot List.mem_cons_self))
    rw [List.mapM_cons, List.filterMap_cons_some known, known, all, List.length_cons, count]
    exact ⟨rfl, rfl⟩

theorem replay_straight (reference : Reference) (arguments : Nat) (types : List ValueType)
    (instructions : List Instruction)
    (fed : Fed values.length temporary.isSome wiring)
    (counted : ∀ entry ∈ wiring, entry.2.length = entry.1.arity)
    (typed : ∀ entry ∈ wiring, entry.1.IsTyped) :
    ∃ more, replay values (.straight reference types instructions arguments) temporary wiring =
      .ok (.straight reference (types ++ more)
        (instructions ++ encode values types.length temporary wiring) arguments,
        (lastResult (encode values types.length temporary wiring)).or temporary) := by
  induction wiring generalizing types instructions temporary with
  | nil => exact ⟨[], by simp [replay, encode, lastResult]⟩
  | cons entry wiring inductionHypothesis =>
    obtain ⟨operation, slots⟩ := entry
    obtain ⟨first, others⟩ := fed_cons_iff.mp fed
    obtain ⟨resolved, length⟩ := mapM_resolve? first
    have known : (slots.filterMap (·.resolve? values temporary)).length = operation.arity :=
      length.trans (counted _ List.mem_cons_self)
    obtain ⟨type, produces, emitted⟩ := operation.emit_eq (typed _ List.mem_cons_self) known
      (.straight reference types instructions arguments)
    rw [Draft.emit_straight] at emitted
    have result : (type.map fun _ => types.length) =
        if operation.hasResult then some types.length else none := by
      rw [← produces]
      cases type <;> rfl
    have written : ((type.map fun _ => types.length).or temporary).isSome =
        (temporary.isSome || operation.hasResult) := by
      rw [← produces]
      cases type <;> cases temporary <;> rfl
    have count : (types ++ type.toList).length = types.length + operation.hasResult.toNat := by
      rw [← produces]
      cases type <;> simp
    obtain ⟨more, rest⟩ := inductionHypothesis (types ++ type.toList)
      (instructions ++ [⟨operation.opcode, slots.filterMap (·.resolve? values temporary),
        type.map fun _ => types.length, some 0⟩])
      (written ▸ others)
      (fun other member => counted other (List.mem_cons_of_mem _ member))
      (fun other member => typed other (List.mem_cons_of_mem _ member))
    refine ⟨type.toList ++ more, ?_⟩
    simp only [replay, resolved, emitted, rest]
    rw [encode, count, result, lastResult_cons]
    simp [Option.or_assoc]

private theorem length_of_mem_deal {operations : List Operation} {slots : List Slot}
    (covers : operations.foldr (fun operation rest => operation.arity + rest) 0 = slots.length)
    {entry : Operation × List Slot} (member : entry ∈ deal operations slots) :
    entry.2.length = entry.1.arity := by
  induction operations generalizing slots with
  | nil => cases member
  | cons operation operations inductionHypothesis =>
    simp only [List.foldr_cons] at covers
    rcases List.mem_cons.mp member with rfl | member
    · simp only [List.length_take]
      omega
    · exact inductionHypothesis (by rw [List.length_drop]; omega) member

theorem Wirable.length_of_mem (wirable : Wirable template) {entry : Operation × List Slot}
    (member : entry ∈ template.wiring) : entry.2.length = entry.1.arity :=
  length_of_mem_deal wirable.covers member

theorem mem_operations_of_mem_wiring {entry : Operation × List Slot}
    (member : entry ∈ template.wiring) : entry.1 ∈ template.operations := by
  rw [← map_fst_deal template.operations template.slots]
  exact List.mem_map_of_mem member

theorem filterMap_result_encode (values : List Var) (next : Nat) (temporary : Option Var)
    (wiring : List (Operation × List Slot)) :
    (encode values next temporary wiring).filterMap (·.result) =
      List.range' next (wiring.countP (·.1.hasResult)) := by
  induction wiring generalizing next temporary with
  | nil => rfl
  | cons entry wiring inductionHypothesis =>
    obtain ⟨operation, slots⟩ := entry
    cases produces : operation.hasResult with
    | false => simp [encode, produces, inductionHypothesis]
    | true => simp [encode, produces, inductionHypothesis, List.range'_succ]

/-- The value that the body returns. -/
def returned (template : Template) : List Var :=
  if template.returnType.isVoid then []
  else (lastResult (encode (List.range template.argumentTypes.length)
    template.argumentTypes.length none template.wiring)).toList

theorem Wirable.exists_lastResult (wirable : Wirable template)
    (value : template.returnType.isVoid = false) (values : List Var) (next : Nat)
    (temporary : Option Var) :
    ∃ last, lastResult (encode values next temporary template.wiring) = some last := by
  obtain ⟨operation, member, produces⟩ := wirable.returns value
  rw [← map_fst_deal template.operations template.slots] at member
  obtain ⟨entry, wired, rfl⟩ := List.mem_map.mp member
  have positive : 0 < template.wiring.countP (·.1.hasResult) :=
    List.countP_pos_iff.mpr ⟨entry, wired, produces⟩
  rw [← Option.isSome_iff_exists, lastResult, filterMap_result_encode, List.getLast?_isSome]
  intro none
  rw [List.range'_eq_nil_iff] at none
  omega

/-- A template that can be wired up, and whose values have types, has a body. -/
theorem body_eq_ok (wirable : Wirable template)
    (passed : ∀ type ∈ template.argumentTypes, (ValueType.ofDescriptor? type).isSome = true)
    (typed : ∀ operation ∈ template.operations, operation.IsTyped)
    (reference : Reference) (index : MethodIndex) :
    ∃ types more, types.map some = template.argumentTypes.map ValueType.ofDescriptor? ∧
      template.body reference index = .ok {
      index := index
      reference := reference
      types := types ++ more
      blocks := [⟨0, parameters 0 template.argumentTypes.length ++
        encode (List.range template.argumentTypes.length) template.argumentTypes.length none
          template.wiring ++ [⟨.ret, template.returned, none, some 0⟩], [], []⟩]
      synthetic := true } := by
  obtain ⟨types, known, ready⟩ := readArguments_straight reference [] [] passed
  have count : types.length = template.argumentTypes.length := by
    simpa using congrArg List.length known
  simp only [List.length_nil, List.nil_append, Nat.zero_add, ← List.range_eq_range'] at ready
  have fed : Fed (List.range template.argumentTypes.length).length
      (none : Option Var).isSome template.wiring := by
    simpa using wirable.fed
  obtain ⟨more, done⟩ := replay_straight reference template.argumentTypes.length types
    (parameters 0 template.argumentTypes.length) fed
    (fun entry member => wirable.length_of_mem member)
    (fun entry member => typed _ (mem_operations_of_mem_wiring member))
  rw [count, Option.or_none] at done
  refine ⟨types, more, known, ?_⟩
  unfold body returned
  cases void : template.returnType.isVoid with
  | true =>
    simp only [Draft.start_eq_straight, ready, done, bind, Except.bind, Draft.emit_straight]
    simp [Draft.finish, Draft.straight, pure, Except.pure]
  | false =>
    obtain ⟨last, produced⟩ := wirable.exists_lastResult void
      (List.range template.argumentTypes.length) template.argumentTypes.length none
    rw [produced] at done
    simp only [Draft.start_eq_straight, ready, done, bind, Except.bind, Draft.emit_straight]
    simp [Draft.finish, Draft.straight, pure, Except.pure, produced]

/-- Straight-line code without a defect in which every value read is written, the given values
among them. -/
structure Settled (reference : Reference) (values : List Var) (draft : Draft) : Prop where
  straight : ∃ types instructions arguments,
    draft = .straight reference types instructions arguments ∧ Defined instructions ∧
      (∀ instruction ∈ instructions, instruction.defect? types.length = none) ∧
      ∀ value ∈ values, value ∈ results instructions

theorem settled_start (reference : Reference) : Settled reference [] (.straight reference [] [] 0) :=
  ⟨⟨[], [], 0, rfl, defined_nil, nofun, nofun⟩⟩

/-- An instruction that reads settled values, and is no refinement, settles its result. -/
theorem Settled.emit {draft : Draft} (settled : Settled reference values draft) {opcode : Opcode}
    (solid : opcode ≠ .refine) {operands : List Var}
    (read : ∀ operand ∈ operands, operand ∈ values) (type : Option ValueType) :
    Settled reference (values ++ (draft.emit opcode operands type).2.toList)
      (draft.emit opcode operands type).1 := by
  obtain ⟨types, instructions, arguments, rfl, defined, sound, written⟩ := settled.straight
  have grows : types.length ≤ (types ++ type.toList).length := by simp
  rw [Draft.emit_straight]
  refine ⟨⟨_, _, _, rfl, defined.append_singleton fun operand member =>
    written operand (read operand member), fun instruction member => ?_, fun value member => ?_⟩⟩
  · rcases List.mem_append.mp member with member | member
    · exact Instruction.defect?_mono grows (sound instruction member)
    · obtain rfl := List.mem_singleton.mp member
      refine (Instruction.defect?_eq_none_iff ..).mpr ⟨fun value named => ?_, fun refines => ?_⟩
      · rcases List.mem_append.mp named with reads | writes
        · obtain ⟨writer, present, result⟩ := mem_results_iff.mp (written value (read value reads))
          exact Nat.lt_of_lt_of_le (lt_of_result (sound writer present) result) grows
        · cases type with
          | none => cases writes
          | some type =>
            obtain rfl : value = types.length := by simpa using writes
            simp
      · exact absurd refines solid
  · rw [results_append, List.mem_append]
    rcases List.mem_append.mp member with member | member
    · exact .inl (written value member)
    · refine .inr (mem_results_iff.mpr ⟨_, List.mem_singleton_self _, ?_⟩)
      simpa using member

theorem Settled.mono {draft : Draft} {fewer : List Var} (settled : Settled reference values draft)
    (among : ∀ value ∈ fewer, value ∈ values) : Settled reference fewer draft := by
  obtain ⟨types, instructions, arguments, same, defined, sound, written⟩ := settled.straight
  exact ⟨⟨types, instructions, arguments, same, defined, sound,
    fun value member => written value (among value member)⟩⟩

theorem Settled.readArguments {draft final : Draft} {descriptors : List Descriptor}
    {more : List Var} (settled : Settled reference values draft)
    (read : Template.readArguments draft descriptors = .ok (final, more)) :
    Settled reference (values ++ more) final := by
  induction descriptors generalizing draft values more with
  | nil =>
    cases read
    simpa using settled
  | cons descriptor descriptors inductionHypothesis =>
    rw [Template.readArguments] at read
    split at read
    · cases read
    · rename_i type _
      have next : Settled reference (values ++ (draft.argument type).2.toList)
          (draft.argument type).1 := by
        obtain ⟨types, instructions, arguments, rfl, defined, sound, written⟩ := settled.straight
        have advanced : Settled reference values
            (.straight reference types instructions (arguments + 1)) :=
          ⟨⟨types, instructions, arguments + 1, rfl, defined, sound, written⟩⟩
        exact advanced.emit (by simp) (by simp) (some type)
      dsimp only at read
      split at read
      · cases read
      · rename_i rest
        cases read
        rw [← List.append_assoc]
        exact inductionHypothesis next rest

theorem Operation.exists_emit {draft : Draft} {result : Draft × Option Var}
    (emitted : operation.emit draft values = .ok result) :
    ∃ opcode type, opcode ≠ .refine ∧ result = draft.emit opcode values type := by
  cases operation with
  | arithmetic op numeric =>
    rw [Operation.emit] at emitted
    split at emitted
    · cases emitted
      exact ⟨_, _, by simp, rfl⟩
    · cases emitted
  | allocate cls =>
    cases emitted
    exact ⟨_, _, by simp, rfl⟩
  | call target kind keepsResult =>
    cases emitted
    exact ⟨_, _, by simp, rfl⟩

theorem mem_of_mapM_resolve? {slots : List Slot} {resolved : List Var} {value : Var}
    (all : slots.mapM (·.resolve? values temporary) = some resolved) (member : value ∈ resolved) :
    value ∈ values ++ temporary.toList := by
  induction slots generalizing resolved with
  | nil =>
    cases all
    cases member
  | cons slot slots inductionHypothesis =>
    rw [List.mapM_cons] at all
    simp only [Option.pure_def, Option.bind_eq_bind, Option.bind_eq_some_iff] at all
    obtain ⟨first, known, rest, others, same⟩ := all
    cases same
    rcases List.mem_cons.mp member with rfl | member
    · cases slot with
      | temporary =>
        have same : temporary = some value := known
        simp [same]
      | argument index => exact List.mem_append_left _ (List.mem_of_getElem? known)
    · exact inductionHypothesis others member

theorem Settled.replay {draft final : Draft} {last : Option Var}
    (settled : Settled reference (values ++ temporary.toList) draft)
    (replayed : Template.replay values draft temporary wiring = .ok (final, last)) :
    Settled reference (values ++ last.toList) final := by
  induction wiring generalizing draft temporary with
  | nil =>
    cases replayed
    exact settled
  | cons entry wiring inductionHypothesis =>
    obtain ⟨operation, slots⟩ := entry
    rw [Template.replay] at replayed
    split at replayed
    · cases replayed
    · rename_i resolved known
      split at replayed
      · cases replayed
      · rename_i next result emitted
        obtain ⟨opcode, type, solid, same⟩ := Operation.exists_emit emitted
        have more := settled.emit solid (fun operand member => mem_of_mapM_resolve? known member) type
        rw [← same] at more
        refine inductionHypothesis (more.mono fun value member => ?_) replayed
        cases result with
        | none => simpa using member
        | some result =>
          rcases List.mem_append.mp member with member | member
          · exact List.mem_append_left _ (List.mem_append_left _ member)
          · exact List.mem_append_right _ member

theorem Settled.finish {draft : Draft} (settled : Settled reference values draft)
    (index : MethodIndex) :
    (draft.finish index).index = index ∧ (draft.finish index).reference = reference ∧
      (draft.finish index).synthetic = true ∧ Defined (draft.finish index).instructions ∧
      (draft.finish index).defect? = none := by
  obtain ⟨types, instructions, arguments, rfl, defined, sound, _⟩ := settled.straight
  refine ⟨rfl, rfl, rfl, ?_, ?_⟩
  · simpa [Draft.finish, Draft.straight, Method.instructions] using defined
  · refine (Method.defect?_eq_none_iff _).mpr fun place block found => ?_
    obtain ⟨inside, rfl⟩ := List.getElem?_eq_some_iff.mp found
    obtain rfl : place = 0 := Nat.lt_one_iff.mp inside
    exact (Block.defect?_eq_none_iff ..).mpr ⟨rfl, nofun, sound⟩

/-- What is known of the body of any template that has one. -/
theorem of_body_eq_ok {index : MethodIndex} {method : Method}
    (written : template.body reference index = .ok method) :
    method.index = index ∧ method.reference = reference ∧ method.synthetic = true ∧
      Defined method.instructions ∧ method.defect? = none := by
  unfold body at written
  rw [Draft.start_eq_straight] at written
  simp only [bind, Except.bind] at written
  split at written
  · cases written
  · rename_i arguments read
    have settled := (settled_start reference).readArguments read
    split at written
    · cases written
    · rename_i last replayed
      rw [List.nil_append] at settled
      have all : Settled reference (arguments.2 ++ last.2.toList) last.1 :=
        Settled.replay (settled.mono (by simp)) replayed
      split at written
      · cases written
        exact (all.emit (by simp) (by simp) none).finish index
      · split at written
        · cases written
        · rename_i value produced
          cases written
          exact (all.emit (by simp) (by simp [produced]) none).finish index

end Template

end Outlining
