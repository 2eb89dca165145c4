import Mathlib.Data.List.Forall2
import Outlining.Proofs.Template.Body

/-! The body of a template says all that matters of the template: its operations, the slot behind
each operand, the number of arguments, and whether a value is returned can be read back from it. -/
namespace Outlining.Template

open Outlining.Bytecode

variable {template other : Template} {method : Method} {reads work : List Instruction}
  {exit : Instruction} {values : List Var} {temporary : Option Var}
  {wiring : List (Operation × List Slot)}

/-- The value that an operand reads: that of an argument, or the one that was produced last
before. -/
def Slot.source? (reads before : List Instruction) : Slot → Option Var
  | .temporary => lastResult before
  | .argument index => reads[index]?.bind (·.result)

/-- A method is the encoding of a template: it reads the arguments, does the operations, and
returns. -/
structure Encodes (template : Template) (method : Method) (reads work : List Instruction)
    (exit : Instruction) : Prop where
  valid : method.defect? = none
  synthetic : method.synthetic = true
  single : method.blocks = [⟨0, reads ++ work ++ [exit], [], []⟩]
  arguments : reads.length = template.argumentTypes.length
  /-- An argument is read into a value of its type. -/
  argument : ∀ (index : Nat) (read : Instruction), reads[index]? = some read →
    read.opcode = .argument index ∧ read.operands = [] ∧ ∃ value, read.result = some value ∧
      method.types[value]? = template.argumentTypes[index]?.bind ValueType.ofDescriptor?
  operations : work.Forall₂ (fun instruction operation =>
    instruction.opcode = operation.opcode ∧ instruction.result.isSome = operation.hasResult)
    template.operations
  operands : ∀ (place : Nat) (instruction : Instruction) (entry : Operation × List Slot),
    work[place]? = some instruction →
    template.wiring[place]? = some entry →
    instruction.operands.map some = entry.2.map (·.source? reads (work.take place))
  /-- No value is written twice. -/
  fresh : (results (reads ++ work)).Nodup
  exits : exit.opcode = .ret ∧ exit.result = none
  returns : exit.operands.map some =
    if template.returnType.isVoid then [] else [lastResult work]

/-! ## What a body does -/

theorem parameters_eq (first count : Nat) : parameters first count =
    (List.range' first count).map fun index => ⟨.argument index, [], some index, some 0⟩ := by
  induction count generalizing first with
  | zero => rfl
  | succ count inductionHypothesis =>
    rw [parameters, inductionHypothesis, List.range'_succ, List.map_cons]

theorem results_parameters (first count : Nat) :
    results (parameters first count) = List.range' first count := by
  rw [results, parameters_eq, List.filterMap_map]
  exact List.filterMap_some

theorem forall₂_encode (values : List Var) (next : Nat) (temporary : Option Var)
    (wiring : List (Operation × List Slot)) :
    (encode values next temporary wiring).Forall₂ (fun instruction operation =>
      instruction.opcode = operation.opcode ∧ instruction.result.isSome = operation.hasResult)
      (wiring.map Prod.fst) := by
  induction wiring generalizing next temporary with
  | nil => exact .nil
  | cons entry wiring inductionHypothesis =>
    obtain ⟨operation, slots⟩ := entry
    refine .cons ⟨rfl, ?_⟩ (inductionHypothesis _ _)
    cases operation.hasResult <;> rfl

/-- An instruction reads what was produced last before it, or what was there at the start. -/
theorem operands_encode (next : Nat) (fed : Fed values.length temporary.isSome wiring)
    {place : Nat} {instruction : Instruction} {entry : Operation × List Slot}
    (reached : (encode values next temporary wiring)[place]? = some instruction)
    (wired : wiring[place]? = some entry) :
    instruction.operands.map some = entry.2.map (·.resolve? values
      ((lastResult ((encode values next temporary wiring).take place)).or temporary)) := by
  induction wiring generalizing next temporary place with
  | nil => cases wired
  | cons first wiring inductionHypothesis =>
    obtain ⟨operation, slots⟩ := first
    obtain ⟨now, later⟩ := fed_cons_iff.mp fed
    cases place with
    | zero =>
      cases wired
      cases reached
      exact (List.map_filterMap_some_eq_filter_map_isSome ..).trans <|
        List.filter_eq_self.mpr fun value member => by
          obtain ⟨slot, inside, rfl⟩ := List.mem_map.mp member
          exact Slot.isFed_iff.mp (now slot inside)
    | succ place =>
      have kept : (temporary.isSome || operation.hasResult) =
          ((if operation.hasResult then some next else none).or temporary).isSome := by
        cases operation.hasResult <;> simp
      rw [encode, List.take_succ_cons, lastResult_cons, Option.or_assoc]
      exact inductionHypothesis _ (kept ▸ later) reached wired

theorem resolve?_range (index : Nat) (before : List Instruction) (slot : Slot) :
    slot.resolve? (List.range index) (lastResult before) =
      slot.source? (parameters 0 index) before := by
  cases slot with
  | temporary => rfl
  | argument place =>
    rw [Slot.resolve?, Slot.source?, parameters_eq, ← List.range_eq_range', List.getElem?_map]
    cases (List.range index)[place]? <;> rfl

theorem results_body (count : Nat) (wiring : List (Operation × List Slot)) :
    results (parameters 0 count ++ encode (List.range count) count none wiring) =
      List.range' 0 (count + wiring.countP (·.1.hasResult)) := by
  rw [results_append, results_parameters, results, filterMap_result_encode]
  simpa using @List.range'_append 0 count (wiring.countP (·.1.hasResult)) 1

theorem map_some_returned (wirable : Wirable template) : template.returned.map some =
    if template.returnType.isVoid then []
    else [lastResult (encode (List.range template.argumentTypes.length)
      template.argumentTypes.length none template.wiring)] := by
  unfold returned
  cases void : template.returnType.isVoid with
  | true => rfl
  | false =>
    obtain ⟨last, produced⟩ := wirable.exists_lastResult void
      (List.range template.argumentTypes.length) template.argumentTypes.length none
    rw [produced]
    rfl

/-- The hypotheses under which a body can be written: the arguments and the results that are kept
have value types, and there is a signature. -/
structure Signed (template : Template) : Prop where
  arguments : ∀ type ∈ template.argumentTypes, (ValueType.ofDescriptor? type).isSome = true
  results : ∀ operation ∈ template.operations, operation.IsTyped
  signature : ∃ prototype, template.signature = .ok prototype

theorem Signed.wirable (signed : Signed template) : Wirable template := by
  obtain ⟨prototype, signature⟩ := signed.signature
  exact (signature_eq_ok_iff.mp signature).1

theorem Signed.exists_body (signed : Signed template) (reference : Reference)
    (index : MethodIndex) : ∃ method reads work exit,
      template.body reference index = .ok method ∧ Encodes template method reads work exit := by
  obtain ⟨types, more, known, written⟩ :=
    body_eq_ok signed.wirable signed.arguments signed.results reference index
  obtain ⟨-, -, synthetic, -, valid⟩ := of_body_eq_ok written
  have count : types.length = template.argumentTypes.length := by
    simpa using congrArg List.length known
  have fed : Fed (List.range template.argumentTypes.length).length (none : Option Var).isSome
      template.wiring := by
    simpa using signed.wirable.fed
  refine ⟨_, _, _, _, written, valid, synthetic, rfl, ?_, ?_, ?_, ?_, ?_, ⟨rfl, rfl⟩,
    map_some_returned signed.wirable⟩
  · simp [parameters_eq]
  · intro index read found
    rw [parameters_eq, ← List.range_eq_range', List.getElem?_map, Option.map_eq_some_iff] at found
    obtain ⟨place, inside, rfl⟩ := found
    obtain ⟨bound, rfl⟩ := List.getElem?_eq_some_iff.mp inside
    rw [List.length_range] at bound
    refine ⟨by simp, rfl, _, rfl, ?_⟩
    have type := congrArg (·[index]?) known
    simp only [List.getElem?_map, List.getElem?_eq_getElem bound,
      List.getElem?_eq_getElem (count ▸ bound), Option.map_some] at type
    rw [List.getElem_range, List.getElem?_append_left (count ▸ bound),
      List.getElem?_eq_getElem (count ▸ bound), List.getElem?_eq_getElem bound]
    exact Option.some.inj type
  · have work := forall₂_encode (List.range template.argumentTypes.length)
      template.argumentTypes.length none template.wiring
    rwa [wiring, map_fst_deal] at work
  · intro place instruction entry reached wired
    rw [operands_encode template.argumentTypes.length fed reached wired, Option.or_none]
    exact List.map_congr_left fun slot _ => resolve?_range _ _ slot
  · rw [results_body]
    exact List.nodup_range'

/-! ## What a body says of its template -/

theorem Operation.eq_of_opcode_eq {operation other : Operation}
    (same : operation.opcode = other.opcode) (keeps : operation.hasResult = other.hasResult) :
    operation = other := by
  cases operation <;> cases other <;> simp_all [opcode, hasResult]

/-- Of instructions that write each value once, the value says which one it is. -/
theorem eq_of_result_eq {instructions : List Instruction} (fresh : (results instructions).Nodup)
    {first second : Nat} {left right : Instruction} {value : Var}
    (leftAt : instructions[first]? = some left) (rightAt : instructions[second]? = some right)
    (leftWrites : left.result = some value) (rightWrites : right.result = some value) :
    first = second := by
  obtain ⟨firstInside, rfl⟩ := List.getElem?_eq_some_iff.mp leftAt
  obtain ⟨secondInside, rfl⟩ := List.getElem?_eq_some_iff.mp rightAt
  have apart := List.pairwise_iff_getElem.mp (List.pairwise_filterMap.mp fresh)
  rcases Nat.lt_trichotomy first second with earlier | same | later
  · exact absurd rfl (apart _ _ firstInside secondInside earlier _ leftWrites _ rightWrites)
  · exact same
  · exact absurd rfl (apart _ _ secondInside firstInside later _ rightWrites _ leftWrites)

/-- Where each value is written once, the value that an operand reads says which slot it has. -/
theorem Slot.eq_of_source?_eq {before : List Instruction} (fresh : (results (reads ++ work)).Nodup)
    (earlier : ∀ value ∈ results before, value ∈ results work) {slot other : Slot} {value : Var}
    (first : slot.source? reads before = some value)
    (second : other.source? reads before = some value) : slot = other := by
  rw [results_append, List.nodup_append] at fresh
  obtain ⟨distinct, -, apart⟩ := fresh
  have produced (last : lastResult before = some value) : value ∈ results work :=
    earlier value (List.mem_of_getLast? last)
  have passed {index : Nat} (read : reads[index]?.bind (·.result) = some value) :
      value ∈ results reads := by
    obtain ⟨writer, found, writes⟩ := Option.bind_eq_some_iff.mp read
    exact mem_results_iff.mpr ⟨writer, List.mem_of_getElem? found, writes⟩
  cases slot with
  | temporary =>
    cases other with
    | temporary => rfl
    | argument index => exact absurd rfl (apart _ (passed second) _ (produced first))
  | argument index =>
    cases other with
    | temporary => exact absurd rfl (apart _ (passed first) _ (produced second))
    | argument place =>
      obtain ⟨left, leftAt, leftWrites⟩ := Option.bind_eq_some_iff.mp first
      obtain ⟨right, rightAt, rightWrites⟩ := Option.bind_eq_some_iff.mp second
      rw [eq_of_result_eq distinct leftAt rightAt leftWrites rightWrites]

theorem slots_eq_of_sources_eq {before : List Instruction} {operands : List Var}
    (fresh : (results (reads ++ work)).Nodup)
    (earlier : ∀ value ∈ results before, value ∈ results work) {slots others : List Slot}
    (first : operands.map some = slots.map (·.source? reads before))
    (second : operands.map some = others.map (·.source? reads before)) : slots = others := by
  induction slots generalizing operands others with
  | nil =>
    rw [List.map_nil, List.map_eq_nil_iff] at first
    rw [first, List.map_nil, List.nil_eq, List.map_eq_nil_iff] at second
    exact second.symm
  | cons slot slots inductionHypothesis =>
    obtain ⟨operand, operands, rfl, head, tail⟩ := List.map_eq_cons_iff.mp first
    obtain ⟨other, others, rfl, otherHead, otherTail⟩ := List.map_eq_cons_iff.mp second.symm
    rw [Slot.eq_of_source?_eq fresh earlier head.symm otherHead,
      inductionHypothesis tail otherTail.symm]

theorem flatMap_snd_deal {operations : List Operation} {slots : List Slot}
    (covers : operations.foldr (fun operation rest => operation.arity + rest) 0 = slots.length) :
    (deal operations slots).flatMap Prod.snd = slots := by
  induction operations generalizing slots with
  | nil => exact (List.length_eq_zero_iff.mp covers.symm).symm
  | cons operation operations inductionHypothesis =>
    rw [List.foldr_cons] at covers
    rw [deal, List.flatMap_cons, inductionHypothesis (by rw [List.length_drop]; omega)]
    exact List.take_append_drop ..

/-- Whether an instruction reads an argument of the method. -/
def readsArgument (instruction : Instruction) : Bool :=
  match instruction.opcode with
  | .argument _ => true
  | _ => false

theorem Encodes.filter_readsArgument (encodes : Encodes template method reads work exit) :
    (reads ++ work ++ [exit]).filter readsArgument = reads := by
  have all : reads.filter readsArgument = reads := List.filter_eq_self.mpr fun read member => by
    obtain ⟨index, found⟩ := List.mem_iff_getElem?.mp member
    rw [readsArgument, (encodes.argument index read found).1]
  have none : work.filter readsArgument = [] := by
    refine List.filter_eq_nil_iff.mpr fun instruction member => ?_
    have apart : work.Forall₂ (fun instruction operation => readsArgument instruction ≠ true ∧
        instruction.opcode = operation.opcode) template.operations :=
      encodes.operations.imp fun instruction operation same => by
        refine ⟨?_, same.1⟩
        rw [readsArgument, same.1]
        cases operation <;> simp [Operation.opcode]
    exact ((List.forall₂_and_left ..).mp apart).1 instruction member
  rw [List.filter_append, List.filter_append, all, none, List.filter_singleton, readsArgument,
    encodes.exits.1]
  simp

variable {method' : Method} {reads' work' : List Instruction} {exit' : Instruction}

theorem Encodes.parts_eq (encodes : Encodes template method reads work exit)
    (encodes' : Encodes other method' reads' work' exit') (same : method.blocks = method'.blocks) :
    reads = reads' ∧ work = work' ∧ exit = exit' := by
  rw [encodes.single, encodes'.single] at same
  have body : reads ++ work ++ [exit] = reads' ++ work' ++ [exit'] := by
    simpa only [List.cons.injEq, Block.mk.injEq, and_true, true_and] using same
  obtain rfl : reads = reads' := by
    rw [← encodes.filter_readsArgument, body, encodes'.filter_readsArgument]
  rw [List.append_assoc, List.append_assoc] at body
  obtain ⟨rfl, last⟩ := List.append_inj' (List.append_cancel_left body) rfl
  exact ⟨rfl, rfl, List.singleton_inj.mp last⟩

theorem Encodes.operations_eq (encodes : Encodes template method reads work exit)
    (encodes' : Encodes other method' reads work exit') :
    template.operations = other.operations :=
  List.right_unique_forall₂' (fun _ _ _ first second =>
    Operation.eq_of_opcode_eq (first.1.symm.trans second.1) (first.2.symm.trans second.2))
    encodes.operations encodes'.operations

theorem Encodes.wiring_eq (encodes : Encodes template method reads work exit)
    (encodes' : Encodes other method' reads work exit') : template.wiring = other.wiring := by
  have names : template.wiring.map Prod.fst = other.wiring.map Prod.fst := by
    rw [wiring, wiring, map_fst_deal, map_fst_deal, encodes.operations_eq encodes']
  have count : work.length = template.wiring.length := by
    rw [encodes.operations.length_eq, ← map_fst_deal template.operations template.slots,
      List.length_map, wiring]
  have length : template.wiring.length = other.wiring.length := by
    simpa using congrArg List.length names
  refine List.ext_getElem length fun place inside otherInside => ?_
  have reached := List.getElem?_eq_getElem (count ▸ inside)
  refine Prod.ext ?_ (slots_eq_of_sources_eq encodes.fresh ?_
    (encodes.operands place _ _ reached (List.getElem?_eq_getElem inside))
    (encodes'.operands place _ _ reached (List.getElem?_eq_getElem otherInside)))
  · have name := congrArg (·[place]?) names
    simpa [inside, otherInside] using name
  · intro value member
    obtain ⟨writer, present, writes⟩ := mem_results_iff.mp member
    exact mem_results_iff.mpr ⟨writer, List.mem_of_mem_take present, writes⟩

/-- Two templates whose encodings have the same instructions agree in all that bodies say. -/
theorem Encodes.determines (encodes : Encodes template method reads work exit)
    (encodes' : Encodes other method' reads' work' exit') (wirable : Wirable template)
    (wirable' : Wirable other) (same : method.blocks = method'.blocks) :
    template.operations = other.operations ∧ template.slots = other.slots ∧
      template.argumentTypes.length = other.argumentTypes.length ∧
      template.returnType.isVoid = other.returnType.isVoid := by
  obtain ⟨rfl, rfl, rfl⟩ := encodes.parts_eq encodes' same
  refine ⟨encodes.operations_eq encodes', ?_, encodes.arguments.symm.trans encodes'.arguments, ?_⟩
  · rw [← flatMap_snd_deal wirable.covers, ← flatMap_snd_deal wirable'.covers]
    exact congrArg (List.flatMap Prod.snd) (encodes.wiring_eq encodes')
  · have returns := encodes.returns.symm.trans encodes'.returns
    cases first : template.returnType.isVoid <;> cases second : other.returnType.isVoid <;>
      simp_all

/-- A template with a signature whose values have types has a body, which is its encoding; and
templates that differ in their operations, in their slots, in the number of arguments or in whether
they return a value have different bodies, whatever the bodies are called. -/
theorem body_encodes (signed : Signed template) :
    (∀ reference index, ∃ method reads work exit,
      template.body reference index = .ok method ∧ Encodes template method reads work exit) ∧
    ∀ other, Signed other →
      (template.operations ≠ other.operations ∨ template.slots ≠ other.slots ∨
        template.argumentTypes.length ≠ other.argumentTypes.length ∨
        template.returnType.isVoid ≠ other.returnType.isVoid) →
      ∀ reference reference' index index' method method',
        template.body reference index = .ok method →
        other.body reference' index' = .ok method' → method.blocks ≠ method'.blocks := by
  refine ⟨fun reference index => signed.exists_body reference index, ?_⟩
  intro other otherSigned differs reference reference' index index' method method' written
    otherWritten same
  obtain ⟨body, reads, work, exit, present, encodes⟩ := signed.exists_body reference index
  obtain ⟨otherBody, reads', work', exit', otherPresent, encodes'⟩ :=
    otherSigned.exists_body reference' index'
  obtain rfl := Except.ok.inj (written.symm.trans present)
  obtain rfl := Except.ok.inj (otherWritten.symm.trans otherPresent)
  obtain ⟨operations, slots, arguments, returns⟩ :=
    encodes.determines encodes' signed.wirable otherSigned.wirable same
  rcases differs with differs | differs | differs | differs
  · exact differs operations
  · exact differs slots
  · exact differs arguments
  · exact differs returns

/-- Adds two arguments and multiplies the sum by one of them. -/
def scaledSum (factor : Nat) : Template where
  operations := [.arithmetic .add .int, .arithmetic .mul .int]
  argumentTypes := [.int, .int]
  slots := [.argument 0, .argument 1, .temporary, .argument factor]
  returnType := .int

theorem signed_scaledSum {factor : Nat} (passed : factor < 2) : Signed (scaledSum factor) := by
  refine ⟨by simp [scaledSum, show (ValueType.ofDescriptor? .int).isSome = true from rfl],
    by simp [scaledSum, Operation.IsTyped], ⟨⟨.int, [.int, .int]⟩, ?_⟩⟩
  match factor, passed with
  | 0, _ => rfl
  | 1, _ => rfl

theorem exists_bodies_scaledSum : Signed (scaledSum 0) ∧ Signed (scaledSum 1) ∧
    ∃ method other : Method, (scaledSum 0).body default 0 = .ok method ∧
      (scaledSum 1).body default 0 = .ok other ∧ method.blocks ≠ other.blocks := by
  have first : Signed (scaledSum 0) := signed_scaledSum (by decide)
  have second : Signed (scaledSum 1) := signed_scaledSum (by decide)
  obtain ⟨method, reads, work, exit, written, -⟩ := (body_encodes first).1 default 0
  obtain ⟨other, reads', work', exit', otherWritten, -⟩ := (body_encodes second).1 default 0
  exact ⟨first, second, method, other, written, otherWritten,
    (body_encodes first).2 _ second (by decide) _ _ _ _ _ _ written otherWritten⟩

end Outlining.Template
