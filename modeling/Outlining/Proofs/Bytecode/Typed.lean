import Outlining.Bytecode.Method
import Outlining.Proofs.Bytecode.Descriptor

namespace Outlining.Bytecode

/-- Whether values may be declared with the descriptor. -/
def Descriptor.IsTyped (descriptor : Descriptor) : Prop :=
  (ValueType.ofDescriptor? descriptor).isSome = true

def ValueType.IsTyped : ValueType → Prop
  | .object cls interfaces => cls.IsTyped ∧ ∀ interface ∈ interfaces, interface.IsTyped
  | .array element => element.IsTyped
  | .number _ | .null => True

structure Reference.IsTyped (reference : Reference) : Prop where
  holder : reference.holder.IsTyped
  parameters : ∀ parameter ∈ reference.prototype.parameters, parameter.IsTyped
  returnType : reference.prototype.returnType.isVoid = false →
    reference.prototype.returnType.IsTyped

def Instruction.IsTyped (instruction : Instruction) : Prop :=
  match instruction.opcode with
  | .allocate cls => cls.IsTyped
  | .call _ target _ => target.IsTyped
  | _ => True

structure Method.IsTyped (method : Method) : Prop where
  types : ∀ type ∈ method.types, type.IsTyped
  instructions : ∀ instruction ∈ method.instructions, instruction.IsTyped

theorem Descriptor.IsTyped.isVoid_eq_false {descriptor : Descriptor} (typed : descriptor.IsTyped) :
    descriptor.isVoid = false := by
  rw [Bool.eq_false_iff]
  intro void
  obtain ⟨text⟩ := descriptor
  obtain rfl : text = "V" := by simpa [isVoid] using void
  cases typed

theorem Numeric.isTyped_descriptor (numeric : Numeric) : numeric.descriptor.IsTyped := by
  cases numeric <;> rfl

theorem Descriptor.IsTyped.arrayOf {element : Descriptor} (typed : element.IsTyped) :
    element.arrayOf.IsTyped := by
  rwa [IsTyped, ofDescriptor?_arrayOf, Option.isSome_map]

theorem ValueType.IsTyped.descriptor {type : ValueType} (typed : type.IsTyped)
    {descriptor : Descriptor} (declares : type.descriptor? = some descriptor) :
    descriptor.IsTyped := by
  induction type generalizing descriptor with
  | number numeric =>
    cases declares
    exact numeric.isTyped_descriptor
  | object cls interfaces =>
    cases declares
    exact typed.1
  | array element inductionHypothesis =>
    obtain ⟨inner, known, rfl⟩ := Option.map_eq_some_iff.mp declares
    exact (inductionHypothesis typed known).arrayOf
  | null => cases declares

theorem Method.IsTyped.typeOf {method : Method} (typed : method.IsTyped) (value : Var) :
    (method.typeOf value).IsTyped := by
  rw [Method.typeOf, List.getD_eq_getElem?_getD]
  cases known : method.types[value]? with
  | none => exact trivial
  | some type => exact typed.types type (List.mem_of_getElem? known)

theorem Reference.IsTyped.operandType {reference : Reference} (typed : reference.IsTyped)
    {kind : CallKind} {place : Nat} {declared : Descriptor}
    (asks : reference.operandType? kind place = some declared) : declared.IsTyped := by
  unfold Reference.operandType? at asks
  split at asks
  · rcases List.mem_cons.mp (List.mem_of_getElem? asks) with rfl | member
    · exact typed.holder
    · exact typed.parameters declared member
  · exact typed.parameters declared (List.mem_of_getElem? asks)

end Outlining.Bytecode
