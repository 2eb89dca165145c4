import Mathlib.Data.List.Basic
import Outlining.Bytecode.Draft
import Outlining.Proofs.Bytecode.Assignment

/-! Whoever builds a method may use what the draft handed out: the results of earlier steps, the
first block, and the blocks opened so far. Nothing else is asked: steps may switch between blocks at
any time. Each step then has an answer, and the finished method is valid and in single assignment
form. -/
namespace Outlining.Bytecode

/-! ## Conversations -/

/-- What is asked of a draft. -/
inductive DraftCall where
  /-- From now on the method counts as made by outlining. -/
  | mark
  | step (step : DraftStep)
deriving DecidableEq

namespace DraftCall

def operands : DraftCall → List Var
  | .step (.refine source) => [source]
  | .step (.arithmetic _ _ left right) => [left, right]
  | .step (.call _ _ operands _ _) => operands
  | .step (.other _ operands _) => operands
  | .step (.ret value) => value.toList
  | _ => []

def labels : DraftCall → List Label
  | .step (.jump target) => [target]
  | .step (.switchTo label) => [label]
  | .step (.guard _ target) => [target]
  | _ => []

end DraftCall

/-- A call and the answer to it. -/
structure Exchange where
  call : DraftCall
  answer : Except Unit (Option Nat)

namespace Exchange

def value? : Exchange → Option Var
  | ⟨.step .openBlock, _⟩ => none
  | ⟨.step (.switchTo _), _⟩ => none
  | ⟨_, .ok answer⟩ => answer
  | ⟨_, .error _⟩ => none

def label? : Exchange → Option Label
  | ⟨.step .openBlock, .ok answer⟩ => answer
  | _ => none

/-- What a call for the next argument was answered with. -/
def argument? : Exchange → Option (Option Var)
  | ⟨.step (.argument _), .ok answer⟩ => some answer
  | _ => none

end Exchange

/-- Whether a call names only what was handed out before. -/
structure DraftCall.Allowed (past : List Exchange) (call : DraftCall) : Prop where
  operands : ∀ operand ∈ call.operands, operand ∈ past.filterMap (·.value?)
  labels : ∀ label ∈ call.labels, label = 0 ∨ label ∈ past.filterMap (·.label?)

instance (past : List Exchange) (call : DraftCall) : Decidable (call.Allowed past) :=
  decidable_of_iff ((∀ operand ∈ call.operands, operand ∈ past.filterMap (·.value?)) ∧
      ∀ label ∈ call.labels, label = 0 ∨ label ∈ past.filterMap (·.label?))
    ⟨fun both => ⟨both.1, both.2⟩, fun allowed => ⟨allowed.operands, allowed.labels⟩⟩

/-- Whether each call of a conversation names only what was handed out before it. -/
def Honest (past : List Exchange) : List Exchange → Prop
  | [] => True
  | exchange :: exchanges =>
    exchange.call.Allowed past ∧ Honest (past ++ [exchange]) exchanges

instance decidableHonest : (past exchanges : List Exchange) → Decidable (Honest past exchanges)
  | _, [] => isTrue trivial
  | past, exchange :: exchanges =>
    let _ := decidableHonest (past ++ [exchange]) exchanges
    inferInstanceAs
      (Decidable (exchange.call.Allowed past ∧ Honest (past ++ [exchange]) exchanges))

namespace Draft

def ask (draft : Draft) : DraftCall → Draft × Except Unit (Option Nat)
  | .mark => ({ draft with method := { draft.method with synthetic := true } }, .ok none)
  | .step step => draft.step step

/-- The draft after some calls, and all that was said. -/
def converse (draft : Draft) : List DraftCall → Draft × List Exchange
  | [] => (draft, [])
  | call :: calls =>
    let (after, answer) := draft.ask call
    let (last, exchanges) := after.converse calls
    (last, ⟨call, answer⟩ :: exchanges)

end Draft

/-- The result and the number of an instruction that reads an argument. -/
def Instruction.argument? (instruction : Instruction) : Option (Option Var × Nat) :=
  match instruction.opcode with
  | .argument number => some (instruction.result, number)
  | _ => none

/-- What the method is like that a conversation leads to. -/
structure Assembled (exchanges : List Exchange) (method : Method) : Prop where
  answered : ∀ exchange ∈ exchanges, ∃ answer, exchange.answer = .ok answer
  valid : method.defect? = none
  /-- The values of the method are those handed out, and they were handed out in order. -/
  values : exchanges.filterMap (·.value?) = List.range method.types.length
  /-- So were its blocks but the first one. -/
  labels : 0 :: exchanges.filterMap (·.label?) = List.range method.blocks.length
  written : ∀ value < method.types.length, (results method.instructions).count value = 1
  /-- Arguments are numbered in the order in which they were asked for. -/
  arguments : (method.instructions.filterMap (·.argument?)).Perm
    (exchanges.filterMap (·.argument?)).zipIdx
  /-- A refinement has the type and the root of its source, and the root refines nothing. -/
  refinements : ∀ refinement ∈ method.instructions, refinement.opcode = .refine →
    ∃ source result, refinement.operands = [source] ∧ refinement.result = some result ∧
      (∃ type, method.types[source]? = some type ∧ method.types[result]? = some type) ∧
      (Usage.ofMethod method).root result = (Usage.ofMethod method).root source ∧
      ∀ other ∈ method.instructions, other.opcode = .refine →
        other.result ≠ some ((Usage.ofMethod method).root result)

variable {draft : Draft} {call : DraftCall} {opcode : Opcode} {type : Option ValueType}
  {past : List Exchange} {change : Block → Block} {instruction : Instruction}

/-! ## Blocks -/

/-- Blocks stand at their labels, control stays inside the body, and a block is open. -/
structure Framed (draft : Draft) : Prop where
  inside : draft.current < draft.method.blocks.length
  labelled : Labelled draft.method
  targets : ∀ block ∈ draft.method.blocks, ∀ target ∈ block.targets,
    target < draft.method.blocks.length

theorem framed_start (reference : Reference) (synthetic : Bool) :
    Framed (.start reference synthetic) where
  inside := Nat.one_pos
  labelled := by
    intro place block found
    cases place with
    | zero => cases found; rfl
    | succ place => cases found
  targets := by
    intro block member target leads
    obtain rfl := List.mem_singleton.mp member
    cases leads

namespace Framed

variable (framed : Framed draft)
include framed

theorem isOpen : draft.isOpen = true := decide_eq_true framed.inside

/-- A change that keeps the label and leads into the body keeps the frame. -/
theorem onCurrent (label : ∀ block, (change block).label = block.label)
    (targets : ∀ block, ∀ target ∈ (change block).targets,
      target ∈ block.targets ∨ target < draft.method.blocks.length) :
    Framed (draft.onCurrent change) where
  inside := by
    rw [Draft.onCurrent, List.length_modify]
    exact framed.inside
  labelled := by
    intro place block found
    rw [Draft.onCurrent, List.getElem?_modify] at found
    obtain ⟨before, present, rfl⟩ := Option.map_eq_some_iff.mp found
    have stands := framed.labelled place before present
    split
    · rw [label, stands]
    · exact stands
  targets := by
    intro block member target leads
    rw [Draft.onCurrent] at member ⊢
    rw [List.length_modify]
    obtain ⟨place, found⟩ := List.mem_iff_getElem?.mp member
    rw [List.getElem?_modify] at found
    obtain ⟨before, present, rfl⟩ := Option.map_eq_some_iff.mp found
    have stood := framed.targets before (List.mem_of_getElem? present) target
    split at leads
    · exact (targets before target leads).elim stood id
    · exact stood leads

/-- What a change appends to the current block is added to the instructions of the method. Those of
later blocks stand behind it, so the order is not kept. -/
theorem instructions_onCurrent {new : List Instruction}
    (appends : ∀ block, (change block).instructions = block.instructions ++ new) :
    (draft.onCurrent change).method.instructions.Perm (draft.method.instructions ++ new) := by
  have inside := framed.inside
  have cut : draft.method.blocks = draft.method.blocks.take draft.current ++
      draft.method.blocks[draft.current] :: draft.method.blocks.drop (draft.current + 1) := by
    rw [← List.drop_eq_getElem_cons inside, List.take_append_drop]
  have before := congrArg (List.flatMap (·.instructions)) cut
  rw [Method.instructions, Method.instructions, before, Draft.onCurrent,
    List.modify_eq_take_cons_drop inside]
  simp only [List.flatMap_append, List.flatMap_cons, appends, List.append_assoc]
  exact (List.perm_append_comm.append_left _).append_left _

theorem instructions_link (change : Block → Block)
    (keeps : ∀ block, (change block).instructions = block.instructions) :
    (draft.onCurrent change).method.instructions.Perm draft.method.instructions := by
  rw [← List.append_nil draft.method.instructions]
  exact framed.instructions_onCurrent fun block => by rw [keeps, List.append_nil]

theorem emit (opcode : Opcode) (operands : List Var) (type : Option ValueType) :
    Framed (draft.emit opcode operands type).1 := by
  cases type with
  | none => exact framed.onCurrent (fun _ => rfl) fun _ _ leads => .inl leads
  | some type =>
    have grown : Framed (draft.fresh type).1 := ⟨framed.inside, framed.labelled, framed.targets⟩
    exact grown.onCurrent (fun _ => rfl) fun _ _ leads => .inl leads

end Framed

theorem length_onCurrent (draft : Draft) (change : Block → Block) :
    (draft.onCurrent change).method.blocks.length = draft.method.blocks.length :=
  List.length_modify ..

theorem length_emit (draft : Draft) (opcode : Opcode) (operands : List Var)
    (type : Option ValueType) :
    (draft.emit opcode operands type).1.method.blocks.length = draft.method.blocks.length := by
  cases type with
  | none => exact length_onCurrent draft _
  | some type => exact length_onCurrent (draft.fresh type).1 _

namespace Framed

variable (framed : Framed draft)
include framed

theorem openBlock : Framed (draft.step .openBlock).1 where
  inside := by
    rw [Draft.step, List.length_append]
    exact Nat.lt_add_right _ framed.inside
  labelled := by
    intro place block found
    simp only [Draft.step, List.getElem?_append, List.getElem?_singleton] at found
    split at found
    · exact framed.labelled place block found
    · split at found
      · cases found
        have last : draft.method.blocks.length = place := by omega
        exact last
      · cases found
  targets := by
    intro block member target leads
    simp only [Draft.step, List.length_append, List.mem_append, List.mem_singleton] at member ⊢
    rcases member with member | rfl
    · exact Nat.lt_add_right _ (framed.targets block member target leads)
    · cases leads

theorem ask (named : ∀ label ∈ call.labels, label < draft.method.blocks.length) :
    Framed (draft.ask call).1 := by
  cases call with
  | mark => exact ⟨framed.inside, framed.labelled, framed.targets⟩
  | step step =>
    cases step with
    | setLine line => exact ⟨framed.inside, framed.labelled, framed.targets⟩
    | argument type =>
      have counted : Framed { draft with arguments := draft.arguments + 1 } :=
        ⟨framed.inside, framed.labelled, framed.targets⟩
      exact counted.emit (.argument draft.arguments) [] (some type)
    | refine source =>
      simp only [Draft.ask, Draft.step]
      split
      · exact framed.emit .refine [source] (some _)
      · exact framed
    | jump target =>
      have target_lt := named target (List.mem_singleton_self target)
      refine (framed.emit .jump [] none).onCurrent (fun _ => rfl) fun block other leads => ?_
      rw [length_emit]
      simp only [Block.targets, List.mem_append, List.mem_singleton] at leads ⊢
      rcases leads with (leads | rfl) | leads
      · exact .inl (.inl leads)
      · exact .inr target_lt
      · exact .inl (.inr leads)
    | openBlock => exact framed.openBlock
    | switchTo label =>
      exact ⟨named label (List.mem_singleton_self label), framed.labelled, framed.targets⟩
    | guard guard target =>
      have target_lt := named target (List.mem_singleton_self target)
      refine framed.onCurrent (fun _ => rfl) fun block other leads => ?_
      simp only [Block.targets, List.map_append, List.mem_append, List.map_singleton,
        List.mem_singleton] at leads ⊢
      rcases leads with leads | leads | rfl
      · exact .inl (.inl leads)
      · exact .inl (.inr leads)
      · exact .inr target_lt
    | literal | arithmetic | allocate | call | other | ret =>
      simp only [Draft.ask, Draft.step, Draft.answer, Draft.call]
      exact framed.emit ..

end Framed

/-! ## Instructions -/

/-- The opcode of the instruction that a call leads to, and the type of its result. -/
def Draft.written? (draft : Draft) : DraftCall → Option (Opcode × Option ValueType)
  | .step (.argument type) => some (.argument draft.arguments, some type)
  | .step (.literal value type) => some (.literal value, some type)
  | .step (.refine source) => some (.refine, draft.method.types[source]?)
  | .step (.arithmetic op numeric _ _) => some (.arithmetic op numeric, some (.number numeric))
  | .step (.allocate cls) => some (.allocate cls, some (.object cls []))
  | .step (.call kind target _ relocatable keepsResult) =>
    some (.call kind target relocatable,
      if keepsResult then ValueType.ofDescriptor? target.prototype.returnType else none)
  | .step (.other name _ type) => some (.other name, type)
  | .step (.ret _) => some (.ret, none)
  | .step (.jump _) => some (.jump, none)
  | _ => none

/-- A draft with an instruction more; a result is a fresh value. -/
structure Draft.Gains (before after : Draft) (opcode : Opcode) (operands : List Var)
    (type : Option ValueType) : Prop where
  types : after.method.types = before.method.types ++ type.toList
  instructions : after.method.instructions.Perm (before.method.instructions ++
    [⟨opcode, operands, type.map fun _ => before.method.types.length, before.line⟩])

namespace Framed

variable (framed : Framed draft)
include framed

theorem gains_emit (opcode : Opcode) (operands : List Var) (type : Option ValueType) :
    draft.Gains (draft.emit opcode operands type).1 opcode operands type := by
  cases type with
  | none => exact ⟨(List.append_nil _).symm, framed.instructions_onCurrent fun _ => rfl⟩
  | some type =>
    have grown : Framed (draft.fresh type).1 := ⟨framed.inside, framed.labelled, framed.targets⟩
    exact ⟨rfl, grown.instructions_onCurrent fun _ => rfl⟩

theorem answer_eq (outcome : Draft × Option Var) :
    draft.answer outcome = (outcome.1, .ok outcome.2) := by
  rw [Draft.answer, if_pos framed.isOpen]

/-- Emitting an instruction in an open block is answered with its result. -/
theorem gains_answer_emit (opcode : Opcode) (operands : List Var) (type : Option ValueType) :
    draft.Gains (draft.answer (draft.emit opcode operands type)).1 opcode operands type ∧
      (draft.answer (draft.emit opcode operands type)).2 =
        .ok (type.map fun _ => draft.method.types.length) := by
  rw [framed.answer_eq]
  refine ⟨framed.gains_emit opcode operands type, congrArg Except.ok ?_⟩
  cases type with
  | none => rfl
  | some type => rfl

theorem gains_ask
    (granted : ∀ operand ∈ call.operands, operand < draft.method.types.length)
    (written : draft.written? call = some (opcode, type)) :
    draft.Gains (draft.ask call).1 opcode call.operands type ∧
      (draft.ask call).2 = .ok (type.map fun _ => draft.method.types.length) := by
  cases call with
  | mark => cases written
  | step step =>
    cases step with
    | setLine | openBlock | switchTo | guard => cases written
    | argument type =>
      cases written
      have counted : Framed { draft with arguments := draft.arguments + 1 } :=
        ⟨framed.inside, framed.labelled, framed.targets⟩
      obtain ⟨⟨types, instructions⟩, answered⟩ :=
        counted.gains_answer_emit (.argument draft.arguments) [] (some type)
      exact ⟨⟨types, instructions⟩, answered⟩
    | refine source =>
      cases written
      have inside := granted source (List.mem_singleton_self source)
      simp only [Draft.ask, Draft.step, List.getElem?_eq_getElem inside]
      exact framed.gains_answer_emit .refine [source] (some draft.method.types[source])
    | jump target =>
      cases written
      have jumped := framed.gains_emit .jump [] none
      have linked := (framed.emit .jump [] none).instructions_link
        (fun block => { block with successors := block.successors ++ [target] }) fun _ => rfl
      simp only [Draft.ask, Draft.step, framed.answer_eq]
      exact ⟨⟨jumped.types, linked.trans jumped.instructions⟩, rfl⟩
    | literal | arithmetic | allocate | call | other | ret =>
      cases written
      exact framed.gains_answer_emit ..

theorem keeps_ask (skips : draft.written? call = none) :
    (draft.ask call).1.method.types = draft.method.types ∧
      (draft.ask call).1.method.instructions.Perm draft.method.instructions ∧
      ∃ answer, (draft.ask call).2 = .ok answer := by
  cases call with
  | mark => exact ⟨rfl, .refl _, _, rfl⟩
  | step step =>
    cases step with
    | setLine | switchTo => exact ⟨rfl, .refl _, _, rfl⟩
    | openBlock =>
      refine ⟨rfl, ?_, _, rfl⟩
      simp [Draft.ask, Draft.step, Method.instructions, Block.empty]
    | guard guard target =>
      have linked := framed.instructions_link
        (fun block => { block with handlers := block.handlers ++ [⟨guard, target⟩] }) fun _ => rfl
      simp only [Draft.ask, Draft.step, framed.answer_eq]
      exact ⟨rfl, linked, _, rfl⟩
    | argument | literal | refine | arithmetic | allocate | call | other | ret | jump =>
      cases skips

end Framed

/-! ## What was handed out -/

theorem value?_of_written (written : draft.written? call = some (opcode, type))
    (answer : Option Nat) : (Exchange.mk call (.ok answer)).value? = answer := by
  cases call with
  | mark => cases written
  | step step =>
    cases step with
    | setLine | openBlock | switchTo | guard => cases written
    | _ => rfl

theorem value?_of_skips (framed : Framed draft) (skips : draft.written? call = none) :
    (Exchange.mk call (draft.ask call).2).value? = none := by
  cases call with
  | mark => rfl
  | step step =>
    cases step with
    | setLine | openBlock | switchTo => rfl
    | guard guard target =>
      simp only [Draft.ask, Draft.step, framed.answer_eq]
      rfl
    | _ => cases skips

/-- A call for a block is answered with the next one; other calls add none. -/
theorem labels_ask (draft : Draft) (call : DraftCall) :
    List.range (draft.ask call).1.method.blocks.length =
      List.range draft.method.blocks.length ++
        (Exchange.mk call (draft.ask call).2).label?.toList := by
  by_cases opens : call = .step .openBlock
  · subst opens
    simp only [Draft.ask, Draft.step, List.length_append, List.length_singleton, List.range_succ]
    rfl
  · have silent : (Exchange.mk call (draft.ask call).2).label? = none := by
      unfold Exchange.label?
      split
      · rename_i same
        exact absurd (congrArg Exchange.call same) opens
      · rfl
    rw [silent, Option.toList_none, List.append_nil]
    apply congrArg List.range
    cases call with
    | mark => rfl
    | step step =>
      cases step with
      | openBlock => exact absurd rfl opens
      | setLine | switchTo => rfl
      | guard => exact length_onCurrent draft _
      | jump => exact (length_onCurrent _ _).trans (length_emit draft .jump [] none)
      | refine source =>
        simp only [Draft.ask, Draft.step]
        split
        · exact length_emit draft .refine [source] (some _)
        · rfl
      | argument type => exact length_emit { draft with arguments := _ } _ [] (some type)
      | literal | arithmetic | allocate | call | other | ret =>
        simp only [Draft.ask, Draft.step, Draft.answer, Draft.call]
        exact length_emit ..

theorem arguments_emit (draft : Draft) (opcode : Opcode) (operands : List Var)
    (type : Option ValueType) :
    (draft.emit opcode operands type).1.arguments = draft.arguments := by
  cases type with
  | none => rfl
  | some type => rfl

theorem arguments_ask (draft : Draft) (call : DraftCall) (answer : Option Nat) :
    (draft.ask call).1.arguments =
      draft.arguments + (Exchange.mk call (.ok answer)).argument?.toList.length := by
  cases call with
  | mark => rfl
  | step step =>
    cases step with
    | refine source =>
      simp only [Draft.ask, Draft.step]
      split
      · rfl
      · rfl
    | call | other =>
      simp only [Draft.ask, Draft.step, Draft.answer, Draft.call]
      exact arguments_emit ..
    | _ => rfl

/-- Calls for arguments write the instructions that read them, and other calls do not. -/
theorem argument?_of_written (written : draft.written? call = some (opcode, type))
    (operands : List Var) (result : Option Var) (line : Option Nat) :
    (Instruction.mk opcode operands result line).argument? =
      (Exchange.mk call (.ok result)).argument?.map (·, draft.arguments) := by
  cases call with
  | mark => cases written
  | step step =>
    cases step with
    | setLine | openBlock | switchTo | guard => cases written
    | _ =>
      cases written
      rfl

theorem argument?_of_skips (skips : draft.written? call = none) (answer : Option Nat) :
    (Exchange.mk call (.ok answer)).argument? = none := by
  cases call with
  | mark => rfl
  | step step =>
    cases step with
    | argument => cases skips
    | _ => rfl

theorem range_append_toList {α : Type} (types : List α) (type : Option α) :
    List.range (types ++ type.toList).length =
      List.range types.length ++ (type.map fun _ => types.length).toList := by
  cases type with
  | none => simp
  | some type => simp [List.range_succ]

theorem filterMap_append_singleton {α β : Type} (result : α → Option β) (items : List α)
    (item : α) :
    (items ++ [item]).filterMap result = items.filterMap result ++ (result item).toList := by
  rw [List.filterMap_append]
  cases found : result item with
  | none => rw [List.filterMap_cons_none found, List.filterMap_nil, Option.toList_none]
  | some known => rw [List.filterMap_cons_some found, List.filterMap_nil, Option.toList_some]

theorem zipIdx_toList {α : Type} (item : Option α) (place : Nat) :
    item.toList.zipIdx place = (item.map (·, place)).toList := by
  cases item with
  | none => rfl
  | some item => rfl

/-! ## Invariant -/

/-- What is read is in the table, and a result comes after all that it is made of. A refinement has
one operand, whose type is that of the result. -/
structure Instruction.Sound (types : List ValueType) (instruction : Instruction) : Prop where
  reads : ∀ operand ∈ instruction.operands, operand < types.length
  writes : ∀ result, instruction.result = some result →
    result < types.length ∧ ∀ operand ∈ instruction.operands, operand < result
  refines : instruction.opcode = .refine → ∃ source result type,
    instruction.operands = [source] ∧ instruction.result = some result ∧
      types[source]? = some type ∧ types[result]? = some type

theorem Instruction.Sound.append {types : List ValueType} (sound : instruction.Sound types)
    (more : List ValueType) : instruction.Sound (types ++ more) where
  reads operand read := by
    rw [List.length_append]
    exact Nat.lt_add_right _ (sound.reads operand read)
  writes result writes := by
    rw [List.length_append]
    exact ⟨Nat.lt_add_right _ (sound.writes result writes).1, (sound.writes result writes).2⟩
  refines refines := by
    obtain ⟨source, result, type, operands, writes, known, same⟩ := sound.refines refines
    refine ⟨source, result, type, operands, writes, ?_, ?_⟩
    · rw [List.getElem?_append_left (List.getElem?_eq_some_iff.mp known).1, known]
    · rw [List.getElem?_append_left (List.getElem?_eq_some_iff.mp same).1, same]

theorem eq_refine_of_written (written : draft.written? call = some (.refine, type)) :
    ∃ source, call = .step (.refine source) ∧ type = draft.method.types[source]? := by
  cases call with
  | mark => cases written
  | step step =>
    cases step with
    | refine source =>
      cases written
      exact ⟨source, rfl, rfl⟩
    | _ => cases written

theorem sound_of_written (granted : ∀ operand ∈ call.operands, operand < draft.method.types.length)
    (written : draft.written? call = some (opcode, type)) (line : Option Nat) :
    (Instruction.mk opcode call.operands (type.map fun _ => draft.method.types.length) line).Sound
      (draft.method.types ++ type.toList) where
  reads operand read := by
    rw [List.length_append]
    exact Nat.lt_add_right _ (granted operand read)
  writes result writes := by
    obtain ⟨type, rfl, rfl⟩ := Option.map_eq_some_iff.mp writes
    refine ⟨?_, granted⟩
    simp
  refines refines := by
    subst refines
    obtain ⟨source, rfl, rfl⟩ := eq_refine_of_written written
    have inside := granted source (List.mem_singleton_self source)
    have known := List.getElem?_eq_getElem inside
    refine ⟨source, draft.method.types.length, draft.method.types[source], rfl, ?_, ?_, ?_⟩
    · simp only [known, Option.map_some]
    · rw [List.getElem?_append_left inside, known]
    · simp [known]

/-- What holds between a draft and all that was said so far. -/
structure Draft.Serves (past : List Exchange) (draft : Draft) : Prop where
  framed : Framed draft
  answered : ∀ exchange ∈ past, ∃ answer, exchange.answer = .ok answer
  values : past.filterMap (·.value?) = List.range draft.method.types.length
  labels : 0 :: past.filterMap (·.label?) = List.range draft.method.blocks.length
  written : (results draft.method.instructions).Perm (List.range draft.method.types.length)
  counted : (past.filterMap (·.argument?)).length = draft.arguments
  arguments : (draft.method.instructions.filterMap (·.argument?)).Perm
    (past.filterMap (·.argument?)).zipIdx
  sound : ∀ instruction ∈ draft.method.instructions, instruction.Sound draft.method.types

namespace Draft.Serves

theorem start (reference : Reference) (synthetic : Bool) :
    (Draft.start reference synthetic).Serves [] where
  framed := framed_start reference synthetic
  answered := nofun
  values := rfl
  labels := rfl
  written := .refl _
  counted := rfl
  arguments := .refl _
  sound := nofun

variable (serves : draft.Serves past)
include serves

theorem operand_lt (allowed : call.Allowed past) :
    ∀ operand ∈ call.operands, operand < draft.method.types.length := by
  intro operand read
  have given := allowed.operands operand read
  rwa [serves.values, List.mem_range] at given

theorem label_lt (allowed : call.Allowed past) :
    ∀ label ∈ call.labels, label < draft.method.blocks.length := by
  intro label named
  have given := List.mem_cons.mpr (allowed.labels label named)
  rwa [serves.labels, List.mem_range] at given

theorem labels_append (call : DraftCall) :
    0 :: (past ++ [Exchange.mk call (draft.ask call).2]).filterMap (·.label?) =
      List.range (draft.ask call).1.method.blocks.length := by
  rw [filterMap_append_singleton, labels_ask, ← serves.labels, List.cons_append]

theorem skip (allowed : call.Allowed past) (skips : draft.written? call = none) :
    (draft.ask call).1.Serves (past ++ [⟨call, (draft.ask call).2⟩]) := by
  obtain ⟨types, instructions, answer, answered⟩ := serves.framed.keeps_ask skips
  have labels := serves.labels_append call
  have valueless := value?_of_skips serves.framed skips
  have silent := argument?_of_skips skips answer
  have arguments := arguments_ask draft call answer
  rw [answered] at labels valueless ⊢
  rw [silent] at arguments
  constructor
  case framed => exact serves.framed.ask (serves.label_lt allowed)
  case answered => exact List.forall_mem_append.mpr ⟨serves.answered, by simp⟩
  case values =>
    rw [filterMap_append_singleton, valueless, types, serves.values, Option.toList_none,
      List.append_nil]
  case labels => exact labels
  case written =>
    rw [types]
    exact (instructions.filterMap _).trans serves.written
  case counted =>
    rw [filterMap_append_singleton, silent, arguments, Option.toList_none, List.append_nil,
      serves.counted, List.length_nil, Nat.add_zero]
  case arguments =>
    rw [filterMap_append_singleton, silent, Option.toList_none, List.append_nil]
    exact (instructions.filterMap _).trans serves.arguments
  case sound =>
    intro instruction member
    rw [types]
    exact serves.sound instruction (instructions.mem_iff.mp member)

theorem write (allowed : call.Allowed past) (written : draft.written? call = some (opcode, type)) :
    (draft.ask call).1.Serves (past ++ [⟨call, (draft.ask call).2⟩]) := by
  have granted := serves.operand_lt allowed
  obtain ⟨gains, answered⟩ := serves.framed.gains_ask granted written
  have labels := serves.labels_append call
  have value := value?_of_written written (type.map fun _ => draft.method.types.length)
  have argument := argument?_of_written written call.operands
    (type.map fun _ => draft.method.types.length) draft.line
  have arguments := arguments_ask draft call (type.map fun _ => draft.method.types.length)
  rw [answered] at labels ⊢
  constructor
  case framed => exact serves.framed.ask (serves.label_lt allowed)
  case answered => exact List.forall_mem_append.mpr ⟨serves.answered, by simp⟩
  case values =>
    rw [filterMap_append_singleton, value, gains.types, range_append_toList, serves.values]
  case labels => exact labels
  case written =>
    rw [gains.types, range_append_toList]
    refine (gains.instructions.filterMap _).trans ?_
    rw [filterMap_append_singleton]
    exact serves.written.append_right _
  case counted =>
    rw [filterMap_append_singleton, List.length_append, serves.counted, arguments]
  case arguments =>
    refine (gains.instructions.filterMap _).trans ?_
    rw [filterMap_append_singleton, filterMap_append_singleton, argument, List.zipIdx_append,
      serves.counted, Nat.zero_add, zipIdx_toList]
    exact serves.arguments.append_right _
  case sound =>
    intro instruction member
    rw [gains.types]
    rcases List.mem_append.mp (gains.instructions.mem_iff.mp member) with member | member
    · exact (serves.sound instruction member).append _
    · obtain rfl := List.mem_singleton.mp member
      exact sound_of_written granted written draft.line

theorem ask (allowed : call.Allowed past) :
    (draft.ask call).1.Serves (past ++ [⟨call, (draft.ask call).2⟩]) := by
  cases written : draft.written? call with
  | none => exact serves.skip allowed written
  | some instruction => exact serves.write allowed written

/-- The rest of a conversation keeps what its beginning kept. -/
theorem converse (calls : List DraftCall) (honest : Honest past (draft.converse calls).2) :
    (draft.converse calls).1.Serves (past ++ (draft.converse calls).2) := by
  induction calls generalizing past draft with
  | nil => rwa [Draft.converse, List.append_nil]
  | cons call calls inductionHypothesis =>
    have later := inductionHypothesis (serves.ask honest.1) honest.2
    rw [List.append_assoc] at later
    exact later

end Draft.Serves

/-! ## Finished methods -/

namespace Draft.Serves

variable (serves : draft.Serves past)
include serves

theorem valid : draft.method.defect? = none := by
  rw [Method.defect?_eq_none_iff]
  intro place block found
  have member := List.mem_of_getElem? found
  rw [Block.defect?_eq_none_iff]
  refine ⟨serves.framed.labelled place block found, serves.framed.targets block member, ?_⟩
  intro instruction inside
  have sound := serves.sound instruction (List.mem_flatMap.mpr ⟨block, member, inside⟩)
  rw [Instruction.defect?_eq_none_iff]
  constructor
  · intro value named
    rcases List.mem_append.mp named with read | written
    · exact sound.reads value read
    · exact (sound.writes value (Option.mem_toList.mp written)).1
  · intro refines
    obtain ⟨source, _, _, operands, _⟩ := sound.refines refines
    rw [operands, List.length_singleton]

theorem count_eq_one {value : Var} (inside : value < draft.method.types.length) :
    (results draft.method.instructions).count value = 1 := by
  rw [serves.written.count_eq, List.nodup_range.count, if_pos (List.mem_range.mpr inside)]

theorem grounded : Grounded draft.method := by
  refine ⟨id, fun instruction member value source refines => ?_⟩
  obtain ⟨refinement, present, known⟩ := exists_refinement_parent member refines
  obtain ⟨read, writes⟩ := operands_of_refinement? known
  exact ((serves.sound refinement present).writes value writes).2 _ read

theorem parent_eq {source result : Var} (member : instruction ∈ draft.method.instructions)
    (refines : instruction.refinement? = some (result, source)) :
    draft.method.parent result = source := by
  obtain ⟨refinement, present, known⟩ := exists_refinement_parent member refines
  have writes := (operands_of_refinement? refines).2
  have inside := ((serves.sound instruction member).writes result writes).1
  obtain rfl := eq_of_count_eq_one (serves.count_eq_one inside) member writes present
    (operands_of_refinement? known).2
  rw [refines] at known
  cases known
  rfl

theorem exists_refinement? (member : instruction ∈ draft.method.instructions)
    (refines : instruction.opcode = .refine) :
    ∃ result source, instruction.refinement? = some (result, source) := by
  obtain ⟨source, result, _, operands, writes, _⟩ :=
    (serves.sound instruction member).refines refines
  exact ⟨result, source, by simp [Instruction.refinement?, refines, operands, writes]⟩

theorem assembled (index : MethodIndex) : Assembled past (draft.finish index) where
  answered := serves.answered
  valid := serves.valid
  values := serves.values
  labels := serves.labels
  written _ inside := serves.count_eq_one inside
  arguments := serves.arguments
  refinements := by
    intro refinement member refines
    obtain ⟨source, result, type, operands, writes, known, same⟩ :=
      (serves.sound refinement member).refines refines
    have pair : refinement.refinement? = some (result, source) := by
      simp [Instruction.refinement?, refines, operands, writes]
    have parent := serves.parent_eq member pair
    have root := root_parent serves.valid serves.grounded.acyclic result
    rw [parent] at root
    refine ⟨source, result, operands, writes, ⟨type, known, same⟩, root.symm, ?_⟩
    intro other present otherRefines otherWrites
    obtain ⟨otherResult, otherSource, otherPair⟩ := serves.exists_refinement? present otherRefines
    have unrefined := serves.grounded.root_ne serves.valid present otherPair result
    rw [(operands_of_refinement? otherPair).2] at otherWrites
    exact unrefined (Option.some_inj.mp otherWrites).symm

end Draft.Serves

/-- Whoever uses only what was handed out gets an answer to every call and in the end a valid method
in which each value is written once. -/
theorem assembled_of_honest (reference : Reference) (calls : List DraftCall) (index : MethodIndex)
    (honest : Honest [] ((Draft.start reference false).converse calls).2) :
    Assembled ((Draft.start reference false).converse calls).2
      (((Draft.start reference false).converse calls).1.finish index) :=
  ((Draft.Serves.start reference false).converse calls honest).assembled index

/-- A call without a result, one whose result is dropped, and one whose result is refined twice. -/
def wandering : List DraftCall :=
  let run : Reference := ⟨⟨"LA;"⟩, "run", ⟨.void, [.int]⟩⟩
  let pick : Reference := ⟨⟨"LA;"⟩, "pick", ⟨⟨"LA;"⟩, [.int]⟩⟩
  [.step (.argument (.number .int)), .step .openBlock, .step (.guard ⟨"LE;"⟩ 1),
    .step (.call .static run [0] true true), .step (.call .static pick [0] true false),
    .step (.call .static pick [0] false true), .step (.refine 1), .step (.switchTo 1), .mark,
    .step (.argument .null), .step (.refine 2), .step (.ret (some 4)), .step (.switchTo 0),
    .step (.setLine (some 7)), .step (.other "check-cast" [3, 4] none), .step (.jump 1)]

/-- The first block grows again after the second one has begun. -/
theorem assembled_wandering :
    let said := (Draft.start ⟨⟨"LA;"⟩, "m", ⟨.void, [.int]⟩⟩ false).converse wandering
    Honest [] said.2 ∧ (said.1.finish 5).types.length = 5 ∧ Assembled said.2 (said.1.finish 5) :=
  ⟨by decide, by decide, assembled_of_honest _ wandering 5 (by decide)⟩

end Outlining.Bytecode
