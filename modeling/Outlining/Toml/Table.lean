import Outlining.Document.Node

/-! A table may be written in pieces, but no piece may change what another one wrote. A table is
written by its header, or bit by bit by dotted keys; a header for a table inside it only says that
it is there. -/
namespace Outlining.Toml

open Document

inductive Origin where
  /-- By its own header. -/
  | header
  /-- By the header of a table inside it. -/
  | implied
  /-- By dotted keys. -/
  | dotted
deriving DecidableEq, Inhabited

inductive Item where
  | value (node : Node)
  | table (origin : Origin) (entries : List (String × Item))
  /-- A list of tables, each with a header of its own. -/
  | elements (tables : List (List (String × Item)))
deriving Inhabited

abbrev Entries := List (String × Item)

def Entries.find? (name : String) : Entries → Option Item
  | [] => none
  | (known, item) :: rest => if known = name then some item else find? name rest

/-- Puts an item under a name, in place of what stood there. -/
def Entries.put (name : String) (item : Item) : Entries → Entries
  | [] => [(name, item)]
  | (known, old) :: rest =>
    if known = name then (known, item) :: rest else (known, old) :: put name item rest

/-- Changes the table at a path, which is made where it is missing. A list of tables stands for
its last table. Dotted keys do not lead into a table with a header. -/
def descend (dotted : Bool) (change : Origin → Entries → Option Entries) :
    Origin → List String → Entries → Option Entries
  | origin, [], entries => change origin entries
  | _, name :: path, entries =>
    match Entries.find? name entries with
    | none => do
      let origin := if dotted then .dotted else .implied
      return Entries.put name (.table origin (← descend dotted change origin path [])) entries
    | some (.value _) => none
    | some (.table origin inner) =>
      if dotted ∧ origin = .header then none
      else do
        return Entries.put name (.table origin (← descend dotted change origin path inner)) entries
    | some (.elements tables) => do
      let last ← tables.getLast?
      let changed ← descend dotted change .header path last
      return Entries.put name (.elements (tables.dropLast ++ [changed])) entries

/-- Writes a value under a key. The key must be new, and a dotted key leads only into a table
that dotted keys have made. -/
def insert (entries : Entries) (path : List String) (name : String) (node : Node) :
    Option Entries :=
  descend true (fun origin entries =>
    if !path.isEmpty && origin ≠ .dotted then none
    else if (Entries.find? name entries).isSome then none
    else some (Entries.put name (.value node) entries)) .header path entries

mutual

def Item.toNode : Item → Node
  | .value node => node
  | .table _ entries => .table (entriesToNodes entries)
  | .elements tables => .list (tablesToNodes tables)

def entriesToNodes : List (String × Item) → List (String × Node)
  | [] => []
  | (name, item) :: rest => (name, item.toNode) :: entriesToNodes rest

def tablesToNodes : List (List (String × Item)) → List Node
  | [] => []
  | table :: rest => .table (entriesToNodes table) :: tablesToNodes rest

end

/-- A line `key = value`: the keys before the last one, the last key, and the value. -/
structure Assignment where
  path : List String
  name : String
  node : Node

def fill (entries : Entries) (assignments : List Assignment) : Option Entries :=
  assignments.foldlM (fun entries assignment =>
    insert entries assignment.path assignment.name assignment.node) entries

/-- The table that a section of a document writes. -/
inductive Header where
  | root
  | table (path : List String) (name : String)
  /-- One more table of a list of tables. -/
  | element (path : List String) (name : String)

/-- A header and the lines under it. -/
structure Section where
  header : Header
  assignments : List Assignment

def addSection (root : Entries) (part : Section) : Option Entries :=
  match part.header with
  | .root => fill root part.assignments
  | .table path name =>
    descend false (fun _ entries => do
      let inner ← match Entries.find? name entries with
        | none => some []
        | some (.table .implied inner) => some inner
        | some _ => none
      return Entries.put name (.table .header (← fill inner part.assignments)) entries)
      .header path root
  | .element path name =>
    descend false (fun _ entries => do
      let tables ← match Entries.find? name entries with
        | none => some []
        | some (.elements tables) => some tables
        | some _ => none
      return Entries.put name (.elements (tables ++ [← fill [] part.assignments])) entries)
      .header path root

end Outlining.Toml
