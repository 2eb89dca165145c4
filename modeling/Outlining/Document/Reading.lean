import Outlining.Document.Node
import Outlining.Text.Numeral

/-! A record is read from a table by the names of its fields, or from a list by their places. Fields
with unknown names are ignored. A tagged record says first which of several records it is; what is
inside one is read by slightly different rules, the same for both formats. -/
namespace Outlining.Document

inductive Format where
  | json
  | toml
deriving DecidableEq, Inhabited

/-- Where a node stands. -/
structure Setting where
  format : Format
  /-- The node stands inside a tagged record. -/
  enclosed : Bool
deriving DecidableEq, Inhabited

abbrev Decoder (α : Type) := Setting → Node → Option α

namespace Setting

/-- The setting of what stands inside a tagged record. -/
def inside (setting : Setting) : Setting := { setting with enclosed := true }

/-- Whether a list may be longer than the record it stands for. -/
def toleratesSurplus (setting : Setting) : Bool :=
  setting.format == .toml && !setting.enclosed

/-- Whether a tag may be given by the number of the record. -/
def tagsByNumber (setting : Setting) : Bool := setting.format == .json && setting.enclosed

/-- Whether a choice that carries nothing may be written with this content. -/
def countsAsNothing (setting : Setting) : Node → Bool
  | .null => true
  | .table [] => setting.enclosed || setting.format == .toml
  | .list [] => !setting.enclosed && setting.format == .toml
  | _ => false

end Setting

def readText : Decoder String := fun _ node =>
  match node with
  | .text value => some value
  | _ => none

def readBool : Decoder Bool := fun _ node =>
  match node with
  | .bool value => some value
  | _ => none

def readNatural (limit : Nat) : Decoder Nat := fun _ node =>
  match node with
  | .int value => if 0 ≤ value ∧ value < limit then some value.toNat else none
  | _ => none

def readIndex : Decoder Nat := readNatural 4294967296

def readSize : Decoder Nat := readNatural Text.wordLimit

def readInteger : Decoder Int := fun _ node =>
  match node with
  | .int value => if Text.isSignedWord value then some value else none
  | _ => none

def readList {α : Type} (item : Decoder α) : Decoder (List α) := fun setting node =>
  match node with
  | .list items => items.mapM (item setting)
  | _ => none

def readOption {α : Type} (value : Decoder α) : Decoder (Option α) := fun setting node =>
  match node with
  | .null => some none
  | node => (value setting node).map some

/-- Reads one of several names. It may also be the name of the only entry of a table. -/
def readChoice {α : Type} (ofName? : String → Option α) : Decoder α := fun setting node =>
  match node with
  | .text name => ofName? name
  | .table [(name, content)] => if setting.countsAsNothing content then ofName? name else none
  | _ => none

inductive Record where
  | named (entries : List (String × Node))
  | positional (items : List Node)

namespace Record

/-- The fields of a record with at most `size` fields. A moment counts as a table in which no
field of any record has a name. -/
def ofNode? (setting : Setting) (size : Nat) : Node → Option Record
  | .table entries => some (.named entries)
  | .moment => some (.named [])
  | .list items =>
    if setting.toleratesSurplus || items.length ≤ size then some (.positional items) else none
  | _ => none

/-- The field at a place, which goes by any of the names. No result if it has two of the names. -/
def field? (record : Record) (place : Nat) (names : List String) : Option (Option Node) :=
  match record with
  | .positional items => some items[place]?
  | .named entries =>
    match names.filterMap fun name => member? name entries with
    | [] => some none
    | [node] => some (some node)
    | _ => none

def required {α : Type} (record : Record) (setting : Setting) (place : Nat) (name : String)
    (value : Decoder α) : Option α :=
  match record.field? place [name] with
  | some (some node) => value setting node
  | _ => none

def optional {α : Type} (record : Record) (setting : Setting) (place : Nat) (names : List String)
    (missing : α) (value : Decoder α) : Option α :=
  match record.field? place names with
  | some (some node) => value setting node
  | some none => some missing
  | none => none

end Record

def readTag (tags : List String) : Decoder String := fun setting node =>
  match node with
  | .text tag => if tags.contains tag then some tag else none
  | .int number =>
    if setting.tagsByNumber && decide (0 ≤ number) then tags[number.toNat]? else none
  | _ => none

/-- The tag of a tagged record, and its fields, which are still to be read. -/
def readTagged (tagName : String) (tags : List String) (setting : Setting) :
    Node → Option (String × Node)
  | .table entries => do
    let tag ← readTag tags setting (← member? tagName entries)
    return (tag, .table entries)
  | .list (tag :: fields) => do return (← readTag tags setting tag, .list fields)
  | _ => none

def readNothing : Node → Option Unit
  | .table _ | .list [] => some ()
  | _ => none

end Outlining.Document
