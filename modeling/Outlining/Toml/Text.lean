import Outlining.Text.Numeral
import Outlining.Toml.Space

/-! A text stands between quotes, on one line, or between triple quotes, on several. Escapes are
read between double quotes only. A key is a bare word or a text on one line; keys are joined by
dots. -/
namespace Outlining.Toml

open Outlining.Text Reader

def codePoint (count : Nat) : Reader Char := do
  let value := number 16 (← times (satisfy fun digit => (hexDigit? digit).isSome) count)
  if value.isValidChar then return Char.ofNat value else failure

def escape : Reader Char := do
  let _ ← char '\\'
  let letter ← satisfy fun _ => true
  match letter with
  | 'b' => return '\x08'
  | 't' => return '\t'
  | 'n' => return '\n'
  | 'f' => return '\x0c'
  | 'r' => return '\r'
  | '"' => return '"'
  | '\\' => return '\\'
  | 'u' => codePoint 4
  | 'U' => codePoint 8
  | _ => failure

def basicText : Reader String := do
  let _ ← char '"'
  let content ← many (escape <|> satisfy fun c => isPlain c && c != '"' && c != '\\')
  let _ ← char '"'
  return String.ofList content

def literalText : Reader String := do
  let _ ← char '\''
  let content ← span fun c => isPlain c && c != '\''
  let _ ← char '\''
  return String.ofList content

/-- A backslash at the end of a line, which hides all blanks and line breaks that follow it. -/
def continuation : Reader Unit := do
  let _ ← char '\\'
  blanks
  lineBreak
  let _ ← many ((do let _ ← satisfy isBlank) <|> lineBreak)

/-- One or two quotes that do not end a text between triple quotes. -/
def innerQuotes (quote : Char) : Reader (List Char) := do
  let quotes ← span (· == quote)
  if 0 < quotes.length ∧ quotes.length < 3 then return quotes else failure

/-- Three quotes, with one or two quotes before them that belong to the text. -/
def closingQuotes (quote : Char) : Reader (List Char) := do
  let quotes ← span (· == quote)
  if 3 ≤ quotes.length ∧ quotes.length ≤ 5 then return quotes.drop 3 else failure

/-- A text between triple quotes, given what else may stand in it. A line break right after the
opening quotes is no part of it. -/
def longText (quote : Char) (content : Reader (List Char)) : Reader String := do
  literal [quote, quote, quote]
  let _ ← optionally lineBreak
  let parts ← many <| content <|> innerQuotes quote <|> do
    lineBreak
    return ['\n']
  return String.ofList (parts.flatten ++ (← closingQuotes quote))

def longBasicText : Reader String :=
  longText '"' <|
    (do
      continuation
      return [])
    <|> (do return [← escape])
    <|> (do return [← satisfy fun c => isPlain c && c != '"' && c != '\\'])

def longLiteralText : Reader String :=
  longText '\'' (do return [← satisfy fun c => isPlain c && c != '\''])

def anyText : Reader String := longBasicText <|> basicText <|> longLiteralText <|> literalText

def isBare (character : Char) : Bool :=
  character.isAlphanum || character == '_' || character == '-'

def simpleKey : Reader String :=
  basicText <|> literalText <|> do
    let word ← span isBare
    if word.isEmpty then failure else return String.ofList word

def keyLimit : Nat := 79

/-- Keys joined by dots: those before the last, and the last. -/
def key : Reader (List String × String) := do
  let keys ← separated (do
    blanks
    let one ← simpleKey
    blanks
    return one) (char '.')
  if keyLimit < keys.length then failure
  match keys.getLast? with
  | some last => return (keys.dropLast, last)
  | none => failure

end Outlining.Toml
