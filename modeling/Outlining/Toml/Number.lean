import Outlining.Document.Node
import Outlining.Text.Overflow
import Outlining.Toml.Text

/-! Digits may be grouped by single underscores. An integer has 64 bits with a sign. A number with a
fraction or an exponent must not be too large for a double, unless it is negative. -/
namespace Outlining.Toml

open Outlining.Text Reader Document

def isDecimal (character : Char) : Bool := character.isDigit

/-- Digits of a class, with single underscores between some of them. -/
def digits (accepts : Char → Bool) : Reader (List Char) := do
  let first ← satisfy accepts
  return first :: (← many (satisfy accepts <|> do
    let _ ← char '_'
    satisfy accepts))

def plainDigits : Reader (List Char) :=
  (do return [← char '0']) <|> digits isDecimal

/-- Whether a sign stands in front and is a minus. -/
def sign : Reader Bool := do
  return (← optionally (char '+' <|> char '-')) == some '-'

/-- The integer, if it has 64 bits. -/
def integerNode (value : Int) : Reader Node :=
  if isSignedWord value then return .int value else failure

def based (letter : Char) (base : Nat) : Reader Node := do
  literal ['0', letter]
  let accepts := fun digit => (hexDigit? digit).any (· < base)
  integerNode (number base (← digits accepts))

def integer : Reader Node :=
  based 'x' 16 <|> based 'o' 8 <|> based 'b' 2 <|> do
    let negative ← sign
    let value := number 10 (← plainDigits)
    integerNode (if negative then -value else value)

def exponent : Reader Int := do
  let _ ← char 'e' <|> char 'E'
  let negative ← sign
  let value : Int := number 10 (← digits isDecimal)
  return if negative then -value else value

def real : Reader Node := do
  let negative ← sign
  let whole ← plainDigits
  let fraction ← optionally (do
    let _ ← char '.'
    digits isDecimal)
  let power ← optionally exponent
  if fraction.isNone ∧ power.isNone then failure
  let places := fraction.getD []
  if !negative && overflows (number 10 (whole ++ places)) (power.getD 0 - places.length) then
    failure
  return .real

/-- Infinity, or no number. -/
def specialReal : Reader Node := do
  let _ ← sign
  literal ['i', 'n', 'f'] <|> literal ['n', 'a', 'n']
  return .real

/-- A number of exactly `count` decimal digits, within bounds. -/
def fixed (count least most : Nat) : Reader Nat := do
  let value := number 10 (← times (satisfy isDecimal) count)
  if least ≤ value ∧ value ≤ most then return value else failure

def daysIn (year month : Nat) : Nat :=
  if month = 2 then
    if year % 4 = 0 ∧ (year % 100 ≠ 0 ∨ year % 400 = 0) then 29 else 28
  else if [4, 6, 9, 11].contains month then 30
  else 31

def date : Reader Unit := do
  let year ← fixed 4 0 9999
  let _ ← char '-'
  let month ← fixed 2 1 12
  let _ ← char '-'
  let _ ← fixed 2 1 (daysIn year month)

def hourAndMinute : Reader Unit := do
  let _ ← fixed 2 0 23
  let _ ← char ':'
  let _ ← fixed 2 0 59

def time : Reader Unit := do
  hourAndMinute
  let _ ← char ':'
  let _ ← fixed 2 0 60
  let _ ← optionally (do
    let _ ← char '.'
    let _ ← satisfy isDecimal
    span isDecimal)

def offset : Reader Unit :=
  (do let _ ← char 'Z' <|> char 'z') <|> do
    let _ ← char '+' <|> char '-'
    hourAndMinute

def moment : Reader Node := do
  (do
    date
    let _ ← optionally (do
      let _ ← char 'T' <|> char 't' <|> char ' '
      time
      optionally offset)) <|> time
  return .moment

end Outlining.Toml
