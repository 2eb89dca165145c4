namespace Outlining.Window

/-- Bounds on the size of a window and on what it passes to its outline. -/
structure Limits where
  minSize : Nat
  maxSize : Nat
  maxRegisters : Nat
  /-- Whether arrays of interfaces may be passed. -/
  interfaceArrays : Bool
deriving DecidableEq, Inhabited

end Outlining.Window
