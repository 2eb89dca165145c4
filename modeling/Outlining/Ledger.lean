import Outlining.Template.Order

/-! Every template gets a number when it is first seen, which is its place among the entries, and
keeps a list of the sites where it occurs. Sites are recorded once each time, and struck out again
one at a time; nothing looks at their order, only at which of them are there and how often. -/
namespace Outlining

open Outlining.Bytecode

/-- An occurrence of a template: the instructions of a block from `start` to before `stop`. -/
structure Site where
  method : MethodIndex
  block : Label
  start : Nat
  stop : Nat
deriving DecidableEq, Inhabited

/-- A template, named by its place in a ledger. -/
abbrev TemplateIndex := Nat

structure LedgerEntry where
  template : Template
  sites : Option (List Site)
deriving DecidableEq, Inhabited

def LedgerEntry.remaining (entry : LedgerEntry) : Nat := (entry.sites.getD []).length

/-- The templates seen, each with its sites. -/
structure Ledger where
  entries : List LedgerEntry
deriving DecidableEq, Inhabited

namespace Ledger

def empty : Ledger := ⟨[]⟩

def indexOf? (ledger : Ledger) (template : Template) : Option TemplateIndex :=
  ledger.entries.findIdx? (·.template == template)

def template? (ledger : Ledger) (index : TemplateIndex) : Option Template :=
  ledger.entries[index]?.map (·.template)

/-- The number of a template, which is new if the template is. -/
def intern (ledger : Ledger) (template : Template) : Ledger × TemplateIndex :=
  match ledger.indexOf? template with
  | some index => (ledger, index)
  | none => (⟨ledger.entries ++ [⟨template, none⟩]⟩, ledger.entries.length)

/-- Adds a site to a template. -/
def record (ledger : Ledger) (template : Template) (site : Site) : Ledger × TemplateIndex :=
  let (known, index) := ledger.intern template
  (⟨known.entries.modify index fun entry =>
    { entry with sites := some (entry.sites.getD [] ++ [site]) }⟩, index)

def sites (ledger : Ledger) (index : TemplateIndex) : List Site :=
  match ledger.entries[index]? with
  | some entry => entry.sites.getD []
  | none => []

/-- Strikes a site out once; `none` if the template has no such site. -/
def strike? (ledger : Ledger) (index : TemplateIndex) (site : Site) : Option Ledger :=
  if (ledger.sites index).contains site then
    some ⟨ledger.entries.modify index fun entry =>
      { entry with sites := entry.sites.map (·.erase site) }⟩
  else none

def remaining (ledger : Ledger) (index : TemplateIndex) : Nat := (ledger.sites index).length

def total (ledger : Ledger) : Nat :=
  ledger.entries.foldr (fun entry rest => entry.remaining + rest) 0

/-- Whether no site was ever recorded; sites struck out do not make a ledger empty again. -/
def isEmpty (ledger : Ledger) : Bool := ledger.entries.all (·.sites.isNone)

/-- The templates that have at least `threshold` sites left, in the order of templates. A template
for which nothing was ever recorded is not among them. -/
def select (ledger : Ledger) (threshold : Nat) : List (TemplateIndex × Template) :=
  let frequent := ledger.entries.zipIdx.filter fun (entry, _) =>
    entry.sites.isSome && threshold ≤ entry.remaining
  (frequent.map fun (entry, index) => (index, entry.template)).mergeSort
    fun left right => left.2.le right.2

end Ledger

end Outlining
