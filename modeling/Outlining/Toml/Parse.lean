import Outlining.Toml.Number
import Outlining.Toml.Table

namespace Outlining.Toml

open Outlining.Text Reader Document

def bool : Reader Node :=
  (do
    literal ['t', 'r', 'u', 'e']
    return .bool true)
  <|> do
    literal ['f', 'a', 'l', 's', 'e']
    return .bool false

/-- A list of values. A comma may follow the last one. -/
def array (value : Reader Node) : Reader Node := do
  let _ ← char '['
  space
  let one : Reader Node := do
    let node ← value
    space
    return node
  let comma : Reader Unit := do
    let _ ← char ','
    space
  let items ← optionally (separated one comma)
  if items.isSome then
    let _ ← optionally comma
  let _ ← char ']'
  return .list (items.getD [])

/-- A key and its value, given how values are read. -/
def assignment (value : Reader Node) : Reader Assignment := do
  let (path, name) ← key
  let _ ← char '='
  blanks
  return ⟨path, name, ← value⟩

def inlineTable (value : Reader Node) : Reader Node := do
  let _ ← char '\x7b'
  let one : Reader Assignment := do
    let line ← assignment value
    blanks
    return line
  let lines ← optionally (separated one (char ','))
  blanks
  let _ ← char '\x7d'
  match fill [] (lines.getD []) with
  | some entries => return .table (entriesToNodes entries)
  | none => failure

/-- A value with at most `depth` lists and tables around its innermost parts. -/
def value : Nat → Reader Node
  | 0 => plain
  | depth + 1 => plain <|> array (value depth) <|> inlineTable (value depth)
where
  /-- A value that holds no other. -/
  plain : Reader Node :=
    (do return .text (← anyText)) <|> moment <|> real <|> specialReal <|> integer <|> bool

/-- The number of lists and tables that a value may hold inside each other. -/
def depthLimit : Nat := 79

inductive Line where
  | nothing
  | header (header : Header)
  | assignment (assignment : Assignment)

def header : Reader Header :=
  (do
    literal ['[', '[']
    let (path, name) ← key
    literal [']', ']']
    return .element path name)
  <|> do
    let _ ← char '['
    let (path, name) ← key
    let _ ← char ']'
    return .table path name

def line : Reader Line := do
  notAtEnd
  blanks
  let content ← (do return .header (← header))
    <|> (do return .assignment (← assignment (value depthLimit)))
    <|> pure .nothing
  lineEnd
  return content

def sections (above : Header) (assignments : List Assignment) : List Line → List Section
  | [] => [⟨above, assignments⟩]
  | .nothing :: rest => sections above assignments rest
  | .assignment one :: rest => sections above (assignments ++ [one]) rest
  | .header next :: rest => ⟨above, assignments⟩ :: sections next [] rest

def lines : Reader (List Line) := do
  let all ← many line
  atEnd
  return all

/-- The document that a text is; a byte order mark may stand in front. -/
def parse (text : String) : Option Node := do
  let characters := match text.toList with
    | '\ufeff' :: rest => rest
    | all => all
  let (all, _) ← lines characters
  let entries ← (sections .root [] all).foldlM addSection []
  return .table (entriesToNodes entries)

end Outlining.Toml
