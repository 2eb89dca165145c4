import Outlining.Bytecode.Listing
import Outlining.Fault
import Outlining.Ledger
import Outlining.Template.Body

/-! All outlines are static methods of one class. They are named by a common stem and a number, and
numbered in the order of their templates, so that the names depend on nothing but the templates. -/
namespace Outlining

open Outlining.Bytecode Outlining.Text

structure Outline where
  index : TemplateIndex
  template : Template
  reference : Reference
deriving DecidableEq, Inhabited

def outlineFor? (outlines : List Outline) (template : Template) : Option Outline :=
  outlines.find? (·.template == template)

structure Holder where
  type : Descriptor
  superclass : Descriptor
  sourceFile : String
  methods : List Method
deriving DecidableEq, Inhabited

namespace Holder

def listing (holder : Holder) : String :=
  unlines (("class " ++ holder.type.text ++ " extends " ++ holder.superclass.text
    ++ " (source: " ++ holder.sourceFile ++ ")") :: holder.methods.flatMap (·.lines))

def indexLimit : Nat := 4294967296

def outline (type : Descriptor) (stem : String) (first : MethodIndex) (number : Nat)
    (index : TemplateIndex) (template : Template) : Except Fault (Outline × Method) :=
  match template.signature with
  | .error flaw => .error (.signatureMismatch template flaw)
  | .ok prototype =>
    let reference : Reference := ⟨type, stem ++ toString number, prototype⟩
    if indexLimit ≤ first + number then .error (.assertion .methodIndex)
    else
      match template.body reference (first + number) with
      | .error flaw => .error (.signatureMismatch template flaw)
      | .ok method => .ok (⟨index, template, reference⟩, method)

/-- Makes the outlines one after the other, from the given number on. -/
def outlines (type : Descriptor) (stem : String) (first : MethodIndex) (number : Nat) :
    List (TemplateIndex × Template) → Except Fault (List (Outline × Method))
  | [] => .ok []
  | (index, template) :: rest =>
    match outline type stem first number index template with
    | .error fault => .error fault
    | .ok made =>
      match outlines type stem first (number + 1) rest with
      | .error fault => .error fault
      | .ok others => .ok (made :: others)

/-- Whether each template stands before the next one. -/
def inOrder : List (TemplateIndex × Template) → Bool
  | [] | [_] => true
  | left :: right :: rest => compare left.2 right.2 == .lt && inOrder (right :: rest)

/-- Makes the holder of the outlines of the given templates, which must stand in order. Methods
are numbered from `first` on. -/
def build (type : Descriptor) (stem : String) (first : MethodIndex)
    (templates : List (TemplateIndex × Template)) : Except Fault (Holder × List Outline) :=
  if !inOrder templates then .error (.assertion .templateOrder)
  else
    match outlines type stem first 0 templates with
    | .error fault => .error fault
    | .ok made => .ok (⟨type, .object, "outline", made.map (·.2)⟩, made.map (·.1))

end Holder

end Outlining
