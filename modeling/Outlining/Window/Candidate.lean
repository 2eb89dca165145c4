import Outlining.Fault
import Outlining.Window.Growth

/-! A window that stopped growing is a candidate if it is large enough, and if it did not separate
an instance from its constructor. Scanning a block closes one window after the other; after a
discarded window it goes back and tries a later start. -/
namespace Outlining

open Outlining.Bytecode Outlining.Template

namespace Window

/-- A window that an outline may replace: the instructions of `block` from `start` to before
`stop`. -/
structure Candidate where
  block : Label
  start : Nat
  stop : Nat
  template : Template
  /-- The values passed to the outline. -/
  arguments : List Var
  /-- The number of registers that the arguments fill. -/
  registers : Nat
  /-- The value that the outline returns. -/
  result : Option Var
  /-- The number of operations in the window. -/
  operations : Nat
deriving DecidableEq, Inhabited

/-- A closed window: a candidate, or the assertion that it broke. -/
abbrev Found := Except Assertion Candidate

/-- The instructions without the transparent ones at the end. -/
def trim (instructions : List Instruction) : List Instruction :=
  (instructions.reverse.dropWhile (·.isTransparent)).reverse

def template (window : Window) (instructions : List Instruction) : Template where
  operations := (instructions.filter (·.isOperation)).filterMap Operation.ofInstruction?
  argumentTypes := window.arguments.map (·.type)
  slots := window.slots
  returnType := (window.temporary.map (·.type)).getD .void

def candidate (scope : Scope) (block : Label) (start : Nat) (window : Window)
    (instructions : List Instruction) : Found :=
  let kept := trim instructions
  let template := window.template kept
  let registers := scope.registers window.arguments
  if scope.limits.maxRegisters < registers then .error .registerBudget
  else if !template.coversOperands then .error .operandSlots
  else .ok {
    block := block
    start := start
    stop := start + kept.length
    template := template
    arguments := window.arguments.map (·.value)
    registers := registers
    result := window.temporaryValue
    operations := window.operations }

/-- Closes a window over the instructions ahead up to the one at place `last`: the window found,
if it is one, and how many instructions to pass over beyond the first before the next start. -/
def close (scope : Scope) (block : Label) (start : Nat) (ahead : List Instruction)
    (window : Window) (last : Nat) : Option Found × Nat :=
  match window.pending with
  | some allocation =>
    (none, match allocation.offset with
      | 0 => last
      | skip + 1 => skip)
  | none =>
    if window.operations < scope.limits.minSize then (none, 0)
    else (some (candidate scope block start window (ahead.take (last + 1))), last)

/-- Every window found in the instructions ahead, which stand at `start` in their block, after
passing over the first `skip` of them. -/
def scanAhead (scope : Scope) (block : Label) (start : Nat) : Nat → List Instruction → List Found
  | _, [] => []
  | skip + 1, _ :: rest => scanAhead scope block (start + 1) skip rest
  | 0, instruction :: rest =>
    match grow scope empty (instruction :: rest) with
    | none => scanAhead scope block (start + 1) 0 rest
    | some (window, last) =>
      let (found, skip) := close scope block start (instruction :: rest) window last
      found.toList ++ scanAhead scope block (start + 1) skip rest

theorem scanAhead_skip (scope : Scope) (block : Label) (start skip : Nat)
    (ahead : List Instruction) :
    scanAhead scope block start skip ahead =
      scanAhead scope block (start + skip) 0 (ahead.drop skip) := by
  induction skip generalizing start ahead with
  | zero => rfl
  | succ skip inductionHypothesis =>
    cases ahead with
    | nil => simp [scanAhead]
    | cons instruction rest =>
      rw [scanAhead, inductionHypothesis, List.drop_succ_cons]
      congr 1
      omega

def scanBlock (scope : Scope) (block : Block) : List Found :=
  scanAhead scope block.label 0 0 block.instructions

end Window

def Bytecode.Method.scan (method : Method) (limits : Window.Limits) : List Window.Found :=
  let scope := Window.Scope.ofMethod method limits
  method.blocks.flatMap (Window.scanBlock scope)

/-- The candidates of a method, unless one of its windows broke an assertion. -/
def Bytecode.Method.candidates (method : Method) (limits : Window.Limits) :
    Except Assertion (List Window.Candidate) :=
  (method.scan limits).mapM id

end Outlining
