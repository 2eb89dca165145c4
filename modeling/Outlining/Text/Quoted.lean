import Outlining.Text.Visible

/-! A text is quoted between double quotes. A quote and a backslash are escaped, four control
characters have a letter each, and any other character that would not show is written by its code
point in hexadecimal. -/
namespace Outlining.Text

/-- The letter that stands after a backslash for a character, if it has one. -/
def escapeLetter? : Char → Option Char
  | '"' => some '"'
  | '\\' => some '\\'
  | '\n' => some 'n'
  | '\r' => some 'r'
  | '\t' => some 't'
  | '\x00' => some '0'
  | _ => none

/-- Whether a quoted text shows the character as it is. -/
def isShown (character : Char) : Bool :=
  !inRanges extending character && !inRanges unprintable character && !inRanges fillers character

def quoteCharacter (character : Char) : List Char :=
  match escapeLetter? character with
  | some letter => ['\\', letter]
  | none =>
    if isShown character then [character]
    else ['\\', 'u', '\x7b'] ++ Nat.toDigits 16 character.toNat ++ ['\x7d']

def quote (text : String) : String :=
  String.ofList (['"'] ++ text.toList.flatMap quoteCharacter ++ ['"'])

end Outlining.Text
