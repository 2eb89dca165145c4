import Outlining.Template.Basic

/-! Which methods contain which templates. Only the set of pairs counts: neither their order nor how
often a pair was recorded can be seen from outside. -/
namespace Outlining

open Outlining.Bytecode

/-- The methods in which each template was seen, one entry for each template. -/
structure Census where
  entries : List (Template × List MethodIndex)
deriving DecidableEq, Inhabited

namespace Census

def empty : Census := ⟨[]⟩

def insert (template : Template) (method : MethodIndex) :
    List (Template × List MethodIndex) → List (Template × List MethodIndex)
  | [] => [(template, [method])]
  | (known, methods) :: rest =>
    if known = template then (known, method :: methods) :: rest
    else (known, methods) :: insert template method rest

def record (census : Census) (template : Template) (method : MethodIndex) : Census :=
  ⟨insert template method census.entries⟩

def size (census : Census) : Nat := census.entries.length

def methods (census : Census) (template : Template) : List MethodIndex :=
  match census.entries.find? (·.1 == template) with
  | some (_, methods) => methods
  | none => []

/-- The number of distinct methods that contain a template. -/
def methodCount (census : Census) (template : Template) : Nat :=
  (census.methods template).eraseDups.length

/-- The distinct indices in ascending order. -/
def ascending (indices : List MethodIndex) : List MethodIndex :=
  indices.eraseDups.mergeSort (fun left right => left ≤ right)

/-- The methods that contain a template found in at least `threshold` distinct methods. -/
def select (census : Census) (threshold : Nat) : List MethodIndex :=
  ascending <| census.entries.flatMap fun (_, methods) =>
    if threshold ≤ methods.eraseDups.length then methods else []

end Census

end Outlining
