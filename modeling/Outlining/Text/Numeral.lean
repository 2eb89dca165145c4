namespace Outlining.Text

def wordLimit : Nat := 18446744073709551616

/-- Whether a number fits a machine word with a sign. -/
def isSignedWord (value : Int) : Bool :=
  -9223372036854775808 ≤ value && value < 9223372036854775808

def digit? (character : Char) : Option Nat :=
  if '0' ≤ character ∧ character ≤ '9' then some (character.toNat - '0'.toNat) else none

/-- Reads decimal digits after those of `value`. -/
def digits? : Nat → List Char → Option Nat
  | value, [] => some value
  | value, character :: rest => do digits? (value * 10 + (← digit? character)) rest

def hexDigit? (character : Char) : Option Nat :=
  if '0' ≤ character ∧ character ≤ '9' then some (character.toNat - '0'.toNat)
  else if 'a' ≤ character ∧ character ≤ 'f' then some (character.toNat - 'a'.toNat + 10)
  else if 'A' ≤ character ∧ character ≤ 'F' then some (character.toNat - 'A'.toNat + 10)
  else none

def number (base : Nat) (digits : List Char) : Nat :=
  digits.foldl (fun value digit => value * base + (hexDigit? digit).getD 0) 0

/-- Reads a machine word: decimal digits, at least one, after an optional plus sign. -/
def word? (text : String) : Option Nat :=
  let digits := match text.toList with
    | '+' :: rest => rest
    | all => all
  match digits with
  | [] => none
  | _ =>
    match digits? 0 digits with
    | some value => if value < wordLimit then some value else none
    | none => none

end Outlining.Text
