import Outlining.Document.Node
import Outlining.Text.Numeral
import Outlining.Text.Overflow
import Outlining.Text.Reader

/-! A JSON text is read into a document. Of two members of an object with the same name the last one
counts. A number is an integer only if it is written without a fraction and an exponent and fits
into 64 bits, with or without a sign. Any other number must not be too large for a double when it is
rounded in steps. -/
namespace Outlining.Json

open Outlining.Text Reader Document

def space : Reader Unit := do
  let _ ← span fun c => c == ' ' || c == '\n' || c == '\t' || c == '\r'

def codeUnit : Reader Nat := do
  return number 16 (← times (satisfy fun digit => (hexDigit? digit).isSome) 4)

/-- The character after `\u`, which may take two code units. -/
def codePoint : Reader Char := do
  let unit ← codeUnit
  if 0xD800 ≤ unit ∧ unit < 0xDC00 then
    literal ['\\', 'u']
    let second ← codeUnit
    if 0xDC00 ≤ second ∧ second < 0xE000 then
      return Char.ofNat (0x10000 + (unit - 0xD800) * 0x400 + (second - 0xDC00))
    else failure
  else if 0xDC00 ≤ unit ∧ unit < 0xE000 then failure
  else return Char.ofNat unit

def escape : Reader Char := do
  let _ ← char '\\'
  let letter ← satisfy fun _ => true
  match letter with
  | '"' => return '"'
  | '\\' => return '\\'
  | '/' => return '/'
  | 'b' => return '\x08'
  | 'f' => return '\x0c'
  | 'n' => return '\n'
  | 'r' => return '\r'
  | 't' => return '\t'
  | 'u' => codePoint
  | _ => failure

def string : Reader String := do
  let _ ← char '"'
  let content ← many (escape <|> satisfy fun c => 0x20 ≤ c.toNat && c != '"' && c != '\\')
  let _ ← char '"'
  return String.ofList content

def digits : Reader (List Char) := do
  let first ← satisfy Char.isDigit
  return first :: (← span Char.isDigit)

def exponent : Reader Int := do
  let _ ← char 'e' <|> char 'E'
  let sign ← optionally (char '+' <|> char '-')
  let value : Int := number 10 (← digits)
  return if sign = some '-' then -value else value

def numeral : Reader Node := do
  let negative := (← optionally (char '-')).isSome
  let whole ← (do return [← char '0']) <|> digits
  let fraction ← optionally (do
    let _ ← char '.'
    digits)
  let power ← optionally exponent
  let value : Int := number 10 whole
  let signed := if negative then -value else value
  if fraction.isNone ∧ power.isNone ∧ (negative → value ≠ 0)
      ∧ (isSignedWord signed ∨ 0 ≤ signed ∧ signed < wordLimit) then
    return .int signed
  let places := fraction.getD []
  if overflowsInSteps (whole ++ places) (power.getD 0 - places.length) then failure
  return .real

/-- A value that holds no other. -/
def plain : Reader Node :=
  (do return .text (← string))
  <|> numeral
  <|> (do
    literal ['n', 'u', 'l', 'l']
    return .null)
  <|> (do
    literal ['t', 'r', 'u', 'e']
    return .bool true)
  <|> do
    literal ['f', 'a', 'l', 's', 'e']
    return .bool false

def items {α : Type} (item : Reader α) : Reader (List α) := do
  let some all ← optionally (separated (do
    space
    let one ← item
    space
    return one) (char ',')) | do
      space
      return []
  return all

def array (value : Reader Node) : Reader Node := do
  let _ ← char '['
  let all ← items value
  let _ ← char ']'
  return .list all

def member (value : Reader Node) : Reader (String × Node) := do
  let name ← string
  space
  let _ ← char ':'
  space
  return (name, ← value)

/-- Puts a member into an object, in place of one with the same name. -/
def put (name : String) (node : Node) : List (String × Node) → List (String × Node)
  | [] => [(name, node)]
  | (known, old) :: rest =>
    if known = name then (known, node) :: rest else (known, old) :: put name node rest

def object (value : Reader Node) : Reader Node := do
  let _ ← char '\x7b'
  let all ← items (member value)
  let _ ← char '\x7d'
  return .table (all.foldl (fun entries (name, node) => put name node entries) [])

/-- A value with at most `depth` arrays and objects around its innermost parts. -/
def value : Nat → Reader Node
  | 0 => plain
  | depth + 1 => plain <|> array (value depth) <|> object (value depth)

/-- The number of arrays and objects that a value may hold inside each other. -/
def depthLimit : Nat := 127

def parse (text : String) : Option Node := do
  let whole : Reader Node := do
    space
    let node ← value depthLimit
    space
    atEnd
    return node
  let (node, _) ← whole text.toList
  return node

end Outlining.Json
