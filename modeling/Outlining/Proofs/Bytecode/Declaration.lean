import Outlining.Proofs.Bytecode.Descriptor

/-! A descriptor is a base under some brackets, and the base alone decides what is declared: values
have a type unless the base is `V`, their type declares the same but for bases computed as `int`,
and it fills as many registers. What declares a type without interfaces has this type again. -/
namespace Outlining.Bytecode

namespace Descriptor

/-- The descriptor without its leading brackets. -/
def base (descriptor : Descriptor) : Descriptor :=
  ⟨String.ofList (descriptor.text.toList.dropWhile (· == '['))⟩

/-- The number of leading brackets. -/
def depth (descriptor : Descriptor) : Nat :=
  (descriptor.text.toList.takeWhile (· == '[')).length

/-- The type of arrays, so many dimensions deep, around a base. -/
def nested : Nat → Descriptor → Descriptor
  | 0, base => base
  | depth + 1, base => (nested depth base).arrayOf

/-- The primitive types that are computed as `int` and are not `int`. -/
def narrow : List Descriptor := [⟨"Z"⟩, ⟨"B"⟩, ⟨"S"⟩, ⟨"C"⟩]

/-- What a base declares again. -/
def computed (base : Descriptor) : Descriptor := if base ∈ narrow then .int else base

/-- How a descriptor agrees with the type of the values that it declares. -/
structure Agrees (descriptor : Descriptor) : Prop where
  splits : descriptor = nested descriptor.depth descriptor.base
  bare : descriptor.base.isArray = false
  untyped : ValueType.ofDescriptor? descriptor = none ↔ descriptor.base = .void
  typed : descriptor.base ≠ .void → ∃ type, ValueType.ofDescriptor? descriptor = some type ∧
    type.descriptor? = some (nested descriptor.depth descriptor.base.computed) ∧
    type.width = descriptor.width

variable {descriptor : Descriptor}

theorem base_arrayOf (element : Descriptor) : element.arrayOf.base = element.base := by
  simp [base]

theorem depth_arrayOf (element : Descriptor) : element.arrayOf.depth = element.depth + 1 := by
  simp [depth]

theorem base_of_not_array (plain : descriptor.isArray = false) : descriptor.base = descriptor := by
  rw [base, dropWhile_of_not_array plain, String.ofList_toList]

theorem depth_of_not_array (plain : descriptor.isArray = false) : descriptor.depth = 0 := by
  have whole := congrArg List.length
    (List.takeWhile_append_dropWhile (p := (· == '[')) (l := descriptor.text.toList))
  rw [dropWhile_of_not_array plain, List.length_append] at whole
  exact Nat.add_eq_right.mp whole

/-- What holds of every descriptor that is no array type, and of an array type if of its elements,
holds of all descriptors. -/
theorem induction {motive : Descriptor → Prop}
    (plain : ∀ descriptor, descriptor.isArray = false → motive descriptor)
    (array : ∀ element, motive element → motive element.arrayOf) (descriptor : Descriptor) :
    motive descriptor := by
  obtain ⟨text⟩ := descriptor
  rw [← String.ofList_toList (s := text)]
  induction text.toList with
  | nil => exact plain _ (by simp [isArray])
  | cons letter letters inductionHypothesis =>
    by_cases bracket : letter = '['
    · have whole : arrayOf ⟨String.ofList letters⟩ = ⟨String.ofList (letter :: letters)⟩ := by
        simp [arrayOf, bracket]
      exact whole ▸ array _ inductionHypothesis
    · exact plain _ (by simp [isArray, bracket])

theorem nested_depth_base (descriptor : Descriptor) :
    nested descriptor.depth descriptor.base = descriptor := by
  induction descriptor using induction with
  | plain descriptor plain => rw [depth_of_not_array plain, base_of_not_array plain, nested]
  | array element inductionHypothesis =>
    rw [depth_arrayOf, base_arrayOf, nested, inductionHypothesis]

theorem isArray_base (descriptor : Descriptor) : descriptor.base.isArray = false := by
  induction descriptor using induction with
  | plain descriptor plain => rwa [base_of_not_array plain]
  | array element inductionHypothesis => rwa [base_arrayOf]

/-- A value that is no array has the type of the numbers it is computed with, or else of its
class. -/
theorem ofDescriptor?_of_not_array (plain : descriptor.isArray = false) :
    ValueType.ofDescriptor? descriptor =
      if descriptor = .void then none
      else some (((Numeric.ofDescriptor? descriptor).map .number).getD (.object descriptor [])) := by
  obtain ⟨text⟩ := descriptor
  unfold ValueType.ofDescriptor? ValueType.ofLetters
  split
  · rename_i letters
    obtain rfl : text = "V" := String.toList_injective letters
    rfl
  · rename_i element letters
    simp [isArray, letters] at plain
  · rename_i other _
    have solid : (⟨text⟩ : Descriptor) ≠ .void := by
      rintro ⟨⟩
      exact other rfl
    rw [if_neg solid, String.ofList_toList]
    cases Numeric.ofDescriptor? ⟨text⟩ with
    | none => rfl
    | some numeric => rfl

theorem widened_eq (descriptor : Descriptor) :
    descriptor.widened = nested descriptor.depth descriptor.base.computed := by
  induction descriptor using induction with
  | plain descriptor plain =>
    have letters : isNarrow descriptor.text.toList = true ↔ descriptor ∈ narrow := by
      obtain ⟨text⟩ := descriptor
      simp [isNarrow, narrow, ← String.toList_inj]
    have first : ∀ element, descriptor.text.toList ≠ '[' :: element := by
      intro element same
      simp [isArray, same] at plain
    rw [depth_of_not_array plain, base_of_not_array plain, nested, computed, widened,
      widen_of_not_array first]
    by_cases small : descriptor ∈ narrow
    · rw [if_pos (letters.mpr small), if_pos small]
      rfl
    · rw [if_neg (mt letters.mp small), if_neg small, String.ofList_toList]
  | array element inductionHypothesis =>
    rw [depth_arrayOf, base_arrayOf, nested, ← inductionHypothesis]
    simp [widened, widen, arrayOf]

end Descriptor

/-- A primitive type fills as many registers as the numbers it is computed with. -/
theorem Numeric.width_of_ofDescriptor? {descriptor : Descriptor} {numeric : Numeric}
    (known : ofDescriptor? descriptor = some numeric) : numeric.width = descriptor.width := by
  obtain ⟨text⟩ := descriptor
  unfold ofDescriptor? at known
  split at known <;> cases known
  all_goals
    rename_i letter
    cases letter
    rfl

theorem Numeric.width_of_ofDescriptor?_eq_none {descriptor : Descriptor}
    (unknown : ofDescriptor? descriptor = none) : descriptor.width = 1 := by
  refine if_neg fun wide => ?_
  obtain ⟨text⟩ := descriptor
  rw [Descriptor.isWide, List.contains_iff_mem, List.mem_pair] at wide
  rcases wide with rfl | rfl <;> cases unknown

theorem ValueType.width_of_ofDescriptor? {descriptor : Descriptor} {type : ValueType}
    (typed : ofDescriptor? descriptor = some type) : type.width = descriptor.width := by
  induction descriptor using Descriptor.induction with
  | plain descriptor plain =>
    rw [Descriptor.ofDescriptor?_of_not_array plain] at typed
    split at typed
    · cases typed
    · cases known : Numeric.ofDescriptor? descriptor with
      | none =>
        rw [known] at typed
        cases typed
        exact (Numeric.width_of_ofDescriptor?_eq_none known).symm
      | some numeric =>
        rw [known] at typed
        cases typed
        exact Numeric.width_of_ofDescriptor? known
  | array element _ =>
    rw [ofDescriptor?_arrayOf, Option.map_eq_some_iff] at typed
    obtain ⟨inner, _, rfl⟩ := typed
    exact (width_arrayOf element).symm

theorem ValueType.ofDescriptor?_eq_none_iff (descriptor : Descriptor) :
    ofDescriptor? descriptor = none ↔ descriptor.base = .void := by
  induction descriptor using Descriptor.induction with
  | plain descriptor plain =>
    rw [Descriptor.ofDescriptor?_of_not_array plain, Descriptor.base_of_not_array plain]
    simp
  | array element inductionHypothesis =>
    rw [ofDescriptor?_arrayOf, Descriptor.base_arrayOf, Option.map_eq_none_iff,
      inductionHypothesis]

theorem Descriptor.agrees (descriptor : Descriptor) : descriptor.Agrees where
  splits := descriptor.nested_depth_base.symm
  bare := descriptor.isArray_base
  untyped := ValueType.ofDescriptor?_eq_none_iff descriptor
  typed := by
    intro solid
    obtain ⟨type, typed⟩ := Option.ne_none_iff_exists'.mp
      (mt (ValueType.ofDescriptor?_eq_none_iff descriptor).mp solid)
    refine ⟨type, typed, ?_, ValueType.width_of_ofDescriptor? typed⟩
    rw [descriptor?_ofDescriptor? typed, descriptor.widened_eq]

/-- The types built from numbers, from classes that are named as classes are and of which no
interfaces are known, and from arrays. -/
inductive ValueType.IsPlain : ValueType → Prop where
  | number (numeric : Numeric) : IsPlain (.number numeric)
  | object {cls : Descriptor} (named : cls.isClass = true) : IsPlain (.object cls [])
  | array {element : ValueType} (plain : IsPlain element) : IsPlain (.array element)

theorem ValueType.ofDescriptor?_of_isClass {cls : Descriptor} (named : cls.isClass = true) :
    ofDescriptor? cls = some (.object cls []) := by
  have first := beq_iff_eq.mp named
  have plain : cls.isArray = false := by simp [Descriptor.isArray, first]
  have solid : cls ≠ .void := by
    rintro rfl
    cases named
  have whole : Numeric.ofDescriptor? cls = none := by
    obtain ⟨text⟩ := cls
    unfold Numeric.ofDescriptor?
    split
    case h_9 => rfl
    all_goals
      rename_i letter
      cases letter
      cases named
  rw [Descriptor.ofDescriptor?_of_not_array plain, if_neg solid, whole]
  rfl

theorem ValueType.IsPlain.exists_descriptor {type : ValueType} (plain : type.IsPlain) :
    ∃ descriptor, type.descriptor? = some descriptor ∧ ofDescriptor? descriptor = some type := by
  induction plain with
  | number numeric => exact ⟨numeric.descriptor, rfl, by cases numeric <;> rfl⟩
  | object named => exact ⟨_, rfl, ofDescriptor?_of_isClass named⟩
  | array _ inductionHypothesis =>
    obtain ⟨inner, declares, typed⟩ := inductionHypothesis
    exact ⟨inner.arrayOf, by rw [descriptor?, declares, Option.map_some],
      by rw [ofDescriptor?_arrayOf, typed, Option.map_some]⟩

/-- Descriptors and the types of values agree, in both directions. -/
theorem declarations_agree : (∀ descriptor : Descriptor, descriptor.Agrees) ∧
    ∀ type : ValueType, type.IsPlain →
      ∃ descriptor, type.descriptor? = some descriptor ∧
        ValueType.ofDescriptor? descriptor = some type :=
  ⟨Descriptor.agrees, fun _ plain => plain.exists_descriptor⟩

/-- Arrays of arrays of bytes are computed as arrays of arrays of `int`; arrays of a class stay. -/
theorem declarations_of_arrays :
    (∃ type, ValueType.ofDescriptor? ⟨"[[B"⟩ = some type ∧ type.descriptor? = some ⟨"[[I"⟩ ∧
      type.width = 1) ∧
    (ValueType.array (.object ⟨"LA;"⟩ [])).IsPlain ∧
    ∃ descriptor, (ValueType.array (.object ⟨"LA;"⟩ [])).descriptor? = some descriptor ∧
      ValueType.ofDescriptor? descriptor = some (.array (.object ⟨"LA;"⟩ [])) := by
  have plain : (ValueType.array (.object ⟨"LA;"⟩ [])).IsPlain := .array (.object (by decide))
  have agrees := declarations_agree.1 ⟨"[[B"⟩
  exact ⟨agrees.typed (by decide), plain, declarations_agree.2 _ plain⟩

end Outlining.Bytecode
