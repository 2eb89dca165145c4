namespace Outlining

structure Statistics where
  methodsScanned : Nat
  /-- Windows found in the first pass. -/
  candidates : Nat
  /-- Distinct templates found in the first pass. -/
  templates : Nat
  methodsSelected : Nat
  /-- Sites recorded in the second pass. -/
  sites : Nat
  outlines : Nat
  sitesRewritten : Nat
  /-- Instructions of windows that were neither kept nor replaced by the call. -/
  instructionsRemoved : Nat
deriving DecidableEq, Inhabited

namespace Statistics

def zero : Statistics := ⟨0, 0, 0, 0, 0, 0, 0, 0⟩

/-- Whether any window was replaced. -/
def hasChanges (statistics : Statistics) : Bool := 0 < statistics.sitesRewritten

def text (statistics : Statistics) : String :=
  String.intercalate "\n" [
    "methods scanned:       " ++ toString statistics.methodsScanned,
    "candidates:            " ++ toString statistics.candidates,
    "templates:             " ++ toString statistics.templates,
    "methods selected:      " ++ toString statistics.methodsSelected,
    "sites recorded:        " ++ toString statistics.sites,
    "outlines generated:    " ++ toString statistics.outlines,
    "sites rewritten:       " ++ toString statistics.sitesRewritten,
    "instructions removed:  " ++ toString statistics.instructionsRemoved]

end Statistics

end Outlining
