import Mathlib.Data.List.Basic
import Outlining.Bytecode.ValueType

namespace Outlining.Bytecode

/-- Whether the letters are a primitive type that is computed as `int` and is not `int`. -/
def isNarrow (letters : List Char) : Bool := [['Z'], ['B'], ['S'], ['C']].contains letters

/-- The letters with `int` in place of a narrow type. -/
def widen : List Char → List Char
  | '[' :: element => '[' :: widen element
  | letters => if isNarrow letters then ['I'] else letters

namespace Descriptor

/-- The descriptor that the type of a value declares, if the value was declared with this one. -/
def widened (descriptor : Descriptor) : Descriptor := ⟨String.ofList (widen descriptor.text.toList)⟩

/-- Whether the descriptor is an array around a narrow type. -/
def isNarrowArray (descriptor : Descriptor) : Bool :=
  descriptor.isArray && isNarrow (descriptor.text.toList.dropWhile (· == '['))

end Descriptor

theorem widen_of_not_array {letters : List Char} (plain : ∀ element, letters ≠ '[' :: element) :
    widen letters = if isNarrow letters then ['I'] else letters := by
  unfold widen
  split
  · rename_i element
    exact absurd rfl (plain element)
  · rfl

theorem widen_eq_self_iff (letters : List Char) :
    widen letters = letters ↔ isNarrow (letters.dropWhile (· == '[')) = false := by
  induction letters with
  | nil => decide
  | cons letter rest inductionHypothesis =>
    by_cases bracket : letter = '['
    · subst bracket
      rw [widen, List.cons.injEq, inductionHypothesis]
      simp
    · have plain : ∀ element, letter :: rest ≠ '[' :: element := by
        rintro element same
        cases same
        exact bracket rfl
      rw [widen_of_not_array plain, List.dropWhile_cons_of_neg (by simpa using bracket)]
      cases narrow : isNarrow (letter :: rest) with
      | false => simp
      | true =>
        simp only [isNarrow, List.contains_iff_mem, List.mem_cons, List.not_mem_nil, or_false]
          at narrow
        rcases narrow with same | same | same | same <;> cases same <;> decide

/-- Letters declare no number, or one whose own letter they are after widening. -/
theorem ofDescriptor?_ofList_cases (letters : List Char) :
    (Numeric.ofDescriptor? ⟨String.ofList letters⟩ = none ∧ isNarrow letters = false) ∨
      ∃ numeric, Numeric.ofDescriptor? ⟨String.ofList letters⟩ = some numeric ∧
        numeric.descriptor = ⟨String.ofList (if isNarrow letters then ['I'] else letters)⟩ := by
  have only (letter : Char) (same : String.ofList letters = String.ofList [letter]) :
      letters = [letter] := String.ofList_injective same
  unfold Numeric.ofDescriptor?
  split
  case h_1 same => obtain rfl := only 'Z' same; exact .inr ⟨_, rfl, by decide⟩
  case h_2 same => obtain rfl := only 'B' same; exact .inr ⟨_, rfl, by decide⟩
  case h_3 same => obtain rfl := only 'S' same; exact .inr ⟨_, rfl, by decide⟩
  case h_4 same => obtain rfl := only 'C' same; exact .inr ⟨_, rfl, by decide⟩
  case h_5 same => obtain rfl := only 'I' same; exact .inr ⟨_, rfl, by decide⟩
  case h_6 same => obtain rfl := only 'J' same; exact .inr ⟨_, rfl, by decide⟩
  case h_7 same => obtain rfl := only 'F' same; exact .inr ⟨_, rfl, by decide⟩
  case h_8 same => obtain rfl := only 'D' same; exact .inr ⟨_, rfl, by decide⟩
  case h_9 notBoolean notByte notShort notChar _ _ _ _ =>
    refine .inl ⟨rfl, ?_⟩
    rw [isNarrow, Bool.eq_false_iff, ne_eq, List.contains_iff_mem]
    simp only [List.mem_cons, List.not_mem_nil, or_false, not_or]
    refine ⟨?_, ?_, ?_, ?_⟩ <;> rintro rfl
    · exact notBoolean rfl
    · exact notByte rfl
    · exact notShort rfl
    · exact notChar rfl

theorem ofLetters_array (element : List Char) :
    ValueType.ofLetters ('[' :: element) = (ValueType.ofLetters element).map .array := rfl

@[simp] theorem toList_arrayOf (element : Descriptor) :
    element.arrayOf.text.toList = '[' :: element.text.toList := by
  simp [Descriptor.arrayOf]

theorem ofDescriptor?_arrayOf (element : Descriptor) :
    ValueType.ofDescriptor? element.arrayOf = (ValueType.ofDescriptor? element).map .array := by
  rw [ValueType.ofDescriptor?, toList_arrayOf, ofLetters_array, ValueType.ofDescriptor?]

/-- The type of a value declares what the value was declared with, but for narrow types. -/
theorem descriptor?_ofLetters {letters : List Char} {type : ValueType}
    (typed : ValueType.ofLetters letters = some type) :
    type.descriptor? = some ⟨String.ofList (widen letters)⟩ := by
  induction letters generalizing type with
  | nil =>
    cases typed
    rfl
  | cons letter rest inductionHypothesis =>
    by_cases bracket : letter = '['
    · subst bracket
      rw [ofLetters_array, Option.map_eq_some_iff] at typed
      obtain ⟨element, typed, rfl⟩ := typed
      rw [ValueType.descriptor?, inductionHypothesis typed, widen]
      simp [Descriptor.arrayOf]
    · have plain : ∀ element, letter :: rest ≠ '[' :: element := by
        rintro element same
        cases same
        exact bracket rfl
      rw [widen_of_not_array plain]
      unfold ValueType.ofLetters at typed
      split at typed
      · cases typed
      · rename_i element same
        exact absurd same (plain element)
      · rcases ofDescriptor?_ofList_cases (letter :: rest) with ⟨none, wide⟩ | ⟨numeric, some, same⟩
        · rw [none] at typed
          cases typed
          rw [wide]
          rfl
        · rw [some] at typed
          cases typed
          rw [ValueType.descriptor?, same]

theorem descriptor?_ofDescriptor? {descriptor : Descriptor} {type : ValueType}
    (typed : ValueType.ofDescriptor? descriptor = some type) :
    type.descriptor? = some descriptor.widened :=
  descriptor?_ofLetters typed

theorem widened_eq_self_iff (descriptor : Descriptor) : descriptor.widened = descriptor ↔
    isNarrow (descriptor.text.toList.dropWhile (· == '[')) = false := by
  rw [← widen_eq_self_iff, Descriptor.widened]
  constructor
  · intro same
    have texts := congrArg (·.text.toList) same
    simpa using texts
  · intro same
    rw [same, String.ofList_toList]

theorem ofDescriptor?_cases {descriptor : Descriptor} {type : ValueType}
    (typed : ValueType.ofDescriptor? descriptor = some type) :
    (∃ element, type = .array element) ∨ (∃ numeric, type = .number numeric) ∨
      ∃ cls, type = .object cls [] := by
  unfold ValueType.ofDescriptor? ValueType.ofLetters at typed
  split at typed
  · cases typed
  · obtain ⟨element, _, rfl⟩ := Option.map_eq_some_iff.mp typed
    exact .inl ⟨element, rfl⟩
  · split at typed
    · cases typed
      exact .inr (.inl ⟨_, rfl⟩)
    · cases typed
      exact .inr (.inr ⟨_, rfl⟩)

theorem isArray_of_ofDescriptor? {descriptor : Descriptor} {type : ValueType}
    (typed : ValueType.ofDescriptor? descriptor = some type) :
    type.isArray = descriptor.isArray := by
  unfold ValueType.ofDescriptor? ValueType.ofLetters at typed
  unfold Descriptor.isArray
  split at typed
  · cases typed
  · rename_i element letters
    obtain ⟨element, _, rfl⟩ := Option.map_eq_some_iff.mp typed
    rw [letters]
    rfl
  · rename_i plain
    have other : descriptor.text.toList.head? ≠ some '[' := by
      intro head
      obtain ⟨element, letters⟩ := List.head?_eq_some_iff.mp head
      exact plain element letters
    rw [beq_eq_false_iff_ne.mpr other]
    split at typed <;> cases typed <;> rfl

theorem dropWhile_of_not_array {descriptor : Descriptor} (plain : descriptor.isArray = false) :
    descriptor.text.toList.dropWhile (· == '[') = descriptor.text.toList := by
  unfold Descriptor.isArray at plain
  cases letters : descriptor.text.toList with
  | nil => rfl
  | cons letter rest =>
    rw [letters] at plain
    exact List.dropWhile_cons_of_neg (by simpa using plain)

/-- Apart from arrays, only a value computed as `int` may forget what it was declared with. -/
theorem widened_of_ne_int {descriptor : Descriptor} {type : ValueType}
    (typed : ValueType.ofDescriptor? descriptor = some type)
    (plain : descriptor.isArray = false) (other : type ≠ .number .int) :
    descriptor.widened = descriptor := by
  rw [widened_eq_self_iff, dropWhile_of_not_array plain]
  by_contra narrow
  rw [Bool.not_eq_false, isNarrow, List.contains_iff_mem] at narrow
  unfold ValueType.ofDescriptor? at typed
  simp only [List.mem_cons, List.not_mem_nil, or_false] at narrow
  rcases narrow with letters | letters | letters | letters <;>
    rw [letters] at typed <;> cases typed <;> exact other rfl

theorem width_eq_one {descriptor : Descriptor} {letter : Char}
    (first : descriptor.text.toList.head? = some letter) (long : letter ≠ 'J')
    (double : letter ≠ 'D') : descriptor.width = 1 := by
  refine if_neg fun wide => ?_
  rw [Descriptor.isWide, List.contains_iff_mem, List.mem_cons, List.mem_singleton] at wide
  rcases wide with text | text
  · rw [text] at first
    exact long (Option.some.inj first).symm
  · rw [text] at first
    exact double (Option.some.inj first).symm

theorem width_of_isClass {descriptor : Descriptor} (named : descriptor.isClass = true) :
    descriptor.width = 1 :=
  width_eq_one (beq_iff_eq.mp named) (by decide) (by decide)

theorem width_arrayOf (element : Descriptor) : element.arrayOf.width = 1 := by
  have first : element.arrayOf.text.toList.head? = some '[' := by simp
  exact width_eq_one first (by decide) (by decide)

end Outlining.Bytecode
