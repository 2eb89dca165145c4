import Outlining.Text.Numeral

/-! A decimal number is rounded to the nearest double, and half a unit above the largest double
there is none. The number is either rounded once, or in steps: first its leading digits and its
power of ten, each for itself, and then their product. Both tests are exact; numbers whose size
alone decides are not multiplied out. -/
namespace Outlining.Text

/-- The least number that no double can stand for, half a unit above the largest double. -/
def overflowBound : Nat := Nat.pow 2 1024 - Nat.pow 2 970

/-- Whether a number with the given digits is too large for a double, where the point stands
`exponent` places to the right of the last digit. -/
def overflows (digits : Nat) (exponent : Int) : Bool :=
  let magnitude : Int := (Nat.toDigits 10 digits).length + exponent
  if digits = 0 ∨ magnitude < 309 then false
  else if 309 < magnitude then true
  else if 0 ≤ exponent then overflowBound ≤ digits * Nat.pow 10 exponent.toNat
  else overflowBound * Nat.pow 10 (-exponent).toNat ≤ digits

/-- The nearest number of at most 53 binary digits with zeros after them. Of two equally near ones
it is that with an even last digit. -/
def nearestDouble (value : Nat) : Nat :=
  let unit := Nat.pow 2 (value.log2 - 52)
  let count := value / unit
  let twice := 2 * (value % unit)
  if unit < twice ∨ unit = twice ∧ count % 2 = 1 then (count + 1) * unit else count * unit

def leadingWord (word : Nat) : List Char → Nat × Nat
  | [] => (word, 0)
  | digit :: rest =>
    let longer := word * 10 + (digit? digit).getD 0
    if longer < wordLimit then leadingWord longer rest else (word, rest.length + 1)

/-- Whether a number with the given digits is too large for a double, if its leading machine word
and its power of ten are rounded before they are multiplied. The point stands `exponent` places to
the right of the last digit. -/
def overflowsInSteps (digits : List Char) (exponent : Int) : Bool :=
  let (word, left) := leadingWord 0 digits
  let power := exponent + left
  if word = 0 ∨ power < 0 then false
  else if 308 < power then true
  else overflowBound ≤ nearestDouble word * nearestDouble (Nat.pow 10 power.toNat)

end Outlining.Text
