import Outlining.Document.Node

namespace Outlining.Json

open Document

def printCharacter (character : Char) : List Char :=
  match character with
  | '"' => ['\\', '"']
  | '\\' => ['\\', '\\']
  | '\x08' => ['\\', 'b']
  | '\x0c' => ['\\', 'f']
  | '\n' => ['\\', 'n']
  | '\r' => ['\\', 'r']
  | '\t' => ['\\', 't']
  | _ =>
    if character.toNat < 0x20 then
      ['\\', 'u', '0', '0'] ++ (if character.toNat < 0x10 then ['0'] else [])
        ++ Nat.toDigits 16 character.toNat
    else [character]

def printString (text : String) : String :=
  String.ofList (['"'] ++ text.toList.flatMap printCharacter ++ ['"'])

mutual

/-- A document as JSON text. Numbers of unknown value and moments, which no answer holds, print as
null. -/
def print : Node → String
  | .null | .real | .moment => "null"
  | .bool value => if value then "true" else "false"
  | .int value => toString value
  | .text value => printString value
  | .list items => "[" ++ String.intercalate "," (printItems items) ++ "]"
  | .table entries =>
    let members := (printMembers entries).mergeSort fun left right =>
      (compare left.1 right.1).isLE
    "\x7b" ++ String.intercalate "," (members.map (·.2)) ++ "\x7d"

def printItems : List Node → List String
  | [] => []
  | item :: rest => print item :: printItems rest

def printMembers : List (String × Node) → List (String × String)
  | [] => []
  | (name, node) :: rest => (name, printString name ++ ":" ++ print node) :: printMembers rest

end

end Outlining.Json
