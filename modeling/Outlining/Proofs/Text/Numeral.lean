import Outlining.Text.Numeral

namespace Outlining.Text

/-- Whether a text is a numeral for a machine word. -/
def IsWord (text : String) (value : Nat) : Prop :=
  ∃ digits : List Char, (text.toList = digits ∨ text.toList = '+' :: digits) ∧ digits ≠ [] ∧
    (∀ digit ∈ digits, digit.isDigit = true) ∧ Nat.ofDigitChars 10 digits 0 = value ∧
    value < Nat.pow 2 64

theorem digit?_eq (character : Char) :
    digit? character =
      if character.isDigit then some (character.toNat - '0'.toNat) else none := by
  have same : ('0' ≤ character ∧ character ≤ '9') ↔ character.isDigit = true := by
    simp [Char.isDigit, Char.le_def]
  unfold digit?
  simp only [same]

theorem digits?_eq_some_iff {before value : Nat} {digits : List Char} :
    digits? before digits = some value ↔
      (∀ digit ∈ digits, digit.isDigit = true) ∧ Nat.ofDigitChars 10 digits before = value := by
  induction digits generalizing before with
  | nil => simp [digits?, Nat.ofDigitChars]
  | cons digit digits inductionHypothesis =>
    rw [digits?, digit?_eq]
    by_cases decimal : digit.isDigit = true
    · simp only [decimal, if_true]
      refine (inductionHypothesis).trans ?_
      simp [decimal, Nat.ofDigitChars, Nat.mul_comm before]
    · simp [decimal]

private theorem unsigned_eq_some_iff {value : Nat} {digits : List Char} :
    (match digits with
      | [] => none
      | _ =>
        match digits? 0 digits with
        | some value => if value < wordLimit then some value else none
        | none => none) = some value ↔
      digits ≠ [] ∧ (∀ digit ∈ digits, digit.isDigit = true) ∧
        Nat.ofDigitChars 10 digits 0 = value ∧ value < Nat.pow 2 64 := by
  cases digits with
  | nil => simp
  | cons digit digits =>
    cases result : digits? 0 (digit :: digits) with
    | none =>
      refine ⟨nofun, fun ⟨_, decimal, same, _⟩ => ?_⟩
      rw [digits?_eq_some_iff.mpr ⟨decimal, same⟩] at result
      cases result
    | some number =>
      obtain ⟨decimal, rfl⟩ := digits?_eq_some_iff.mp result
      by_cases small : Nat.ofDigitChars 10 (digit :: digits) 0 < wordLimit
      · simp only [small, if_true, Option.some.injEq]
        exact ⟨fun same => ⟨List.cons_ne_nil _ _, decimal, same, same ▸ small⟩,
          fun word => word.2.2.1⟩
      · simp only [small, if_false]
        exact ⟨nofun, fun word => absurd (word.2.2.1 ▸ word.2.2.2) small⟩

theorem word?_eq_some_iff {text : String} {value : Nat} :
    word? text = some value ↔ IsWord text value := by
  unfold word? IsWord
  refine unsigned_eq_some_iff.trans ?_
  split
  · rename_i digits signed
    refine ⟨fun word => ⟨digits, .inr signed, word⟩, ?_⟩
    rintro ⟨others, same | same, word⟩
    · rw [signed] at same
      exact absurd (word.2.1 '+' (same ▸ List.mem_cons_self)) (by decide)
    · rw [signed] at same
      exact (List.cons.inj same).2 ▸ word
  · rename_i unsigned
    refine ⟨fun word => ⟨_, .inl rfl, word⟩, ?_⟩
    rintro ⟨digits, same | same, word⟩
    · exact same ▸ word
    · exact absurd same (unsigned digits)

end Outlining.Text
