import Outlining.Bytecode.Descriptor
import Outlining.Text.Numeral
import Outlining.Window.Limits

/-! Options say which windows count, how often a template must be seen, and how the holder is named.
They fit together if some window can be found at all, if there is a thread to work, and if the
holder is a class. Thresholds that nothing reaches are no defect: they switch outlining off. -/
namespace Outlining

open Outlining.Bytecode

/-- The form of code that is produced. -/
inductive Backend where
  | dex
  | classFile
deriving DecidableEq, Inhabited

namespace Backend

def all : List Backend := [.dex, .classFile]

def name : Backend → String
  | .dex => "dex"
  | .classFile => "class-file"

def ofName? (name : String) : Option Backend := all.find? (·.name == name)

end Backend

structure Options where
  /-- Without this a program is left as it is. -/
  enabled : Bool
  /-- The least number of operations in a window. -/
  minSize : Nat
  /-- The greatest number of operations in a window. -/
  maxSize : Nat
  /-- The number of methods that a template must occur in for these methods to be outlined. -/
  methodThreshold : Nat
  /-- The number of sites that a template must have to get an outline. -/
  siteThreshold : Nat
  /-- The greatest number of registers passed to an outline. -/
  maxArgumentRegisters : Nat
  /-- Arrays of interfaces may be passed to an outline, if the backend admits it. -/
  allowInterfaceArrays : Bool
  backend : Backend
  /-- The class that holds the outlines. -/
  holderType : Descriptor
  /-- The name of every outline up to its number. -/
  nameStem : String
  threads : Nat
  /-- Check after rewriting that no recorded site is left. -/
  verify : Bool
deriving DecidableEq, Inhabited

inductive OptionsDefect where
  | emptyWindow
  | sizeRange (minSize maxSize : Nat)
  | noThreads
  | holderType (descriptor : Descriptor)
deriving DecidableEq

def OptionsDefect.message : OptionsDefect → String
  | .emptyWindow => "min_size must be at least 1"
  | .sizeRange minSize maxSize =>
    "min_size (" ++ toString minSize ++ ") exceeds max_size (" ++ toString maxSize ++ ")"
  | .noThreads => "threads must be at least 1"
  | .holderType descriptor =>
    "holder_type '" ++ descriptor.text ++ "' is not a class descriptor"

/-- The text for a configuration that was read but does not fit together. -/
def invalidConfiguration (reason : String) : String := "Invalid configuration: " ++ reason

namespace Options

/-- The number of threads that an environment variable requests; `none` leaves the choice to the
machine. -/
def threadsFrom (request : Option String) : Option Nat :=
  match request.bind Text.word? with
  | some threads => if 0 < threads then some threads else none
  | none => none

def standard (threads : Nat) : Options where
  enabled := true
  minSize := 3
  maxSize := 99
  methodThreshold := 20
  siteThreshold := 20
  maxArgumentRegisters := 5
  allowInterfaceArrays := false
  backend := .dex
  holderType := ⟨"Loutliner/GeneratedOutlineSupport;"⟩
  nameStem := "outline$"
  threads := threads
  verify := true

def defect? (options : Options) : Option OptionsDefect :=
  if options.minSize = 0 then some .emptyWindow
  else if options.maxSize < options.minSize then
    some (.sizeRange options.minSize options.maxSize)
  else if options.threads = 0 then some .noThreads
  else if !options.holderType.isClass then some (.holderType options.holderType)
  else none

def complaint? (options : Options) : Option String :=
  options.defect?.map (invalidConfiguration ·.message)

/-- Only class files admit arrays of interfaces as arguments. -/
def interfaceArraysAllowed (options : Options) : Bool :=
  options.allowInterfaceArrays && options.backend == .classFile

/-- The same number of methods and of sites required. -/
def withThresholds (options : Options) (threshold : Nat) : Options :=
  { options with methodThreshold := threshold, siteThreshold := threshold }

def limits (options : Options) : Window.Limits where
  minSize := options.minSize
  maxSize := options.maxSize
  maxRegisters := options.maxArgumentRegisters
  interfaceArrays := options.interfaceArraysAllowed

theorem defect?_standard (threads : Nat) (positive : 0 < threads) :
    (standard threads).defect? = none := by
  have nonzero : threads ≠ 0 := by omega
  have holder : (standard threads).holderType.isClass = true := by
    simp [standard, Descriptor.isClass]
  simp [defect?, holder]
  simp [standard, nonzero]

end Options

end Outlining
