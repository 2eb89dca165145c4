import Outlining.Census
import Outlining.Holder
import Outlining.Options
import Outlining.Rewriting
import Outlining.Statistics
import Outlining.Window.Candidate

/-! A pipeline outlines one program in steps that must be taken in order: survey which methods
contain which templates, select the methods with a frequent template, record the sites in them,
build the holder of the outlines, and rewrite the methods. A step that fails leaves what it did up
to then. -/
namespace Outlining

open Outlining.Bytecode

/-- The program that is outlined, and all that the steps learn about it. -/
structure Pipeline where
  options : Options
  program : Program
  phase : Phase
  census : Census
  ledger : Ledger
  outlines : List Outline
  statistics : Statistics
deriving DecidableEq, Inhabited

namespace Pipeline

def start (options : Options) (program : Program) : Pipeline :=
  ⟨options, program, .created, .empty, .empty, [], .zero⟩

/-- A step of a pipeline: it may fail, and changes the pipeline even then. -/
abbrev Pass (α : Type) := EStateM Fault Pipeline α

/-- Goes to the next phase, if the pipeline is in the phase from which the step starts. -/
def advance (expected next : Phase) : Pass Unit := do
  let pipeline ← get
  if pipeline.phase ≠ expected then throw (.passOrder expected pipeline.phase)
  set { pipeline with phase := next }

def count (change : Statistics → Statistics) : Pass Unit :=
  modify fun pipeline => { pipeline with statistics := change pipeline.statistics }

def forEachCandidate (method : Method) (action : Window.Candidate → Pass Unit) : Pass Unit := do
  let pipeline ← get
  (method.scan pipeline.options.limits).forM fun
    | .error assertion => throw (.assertion assertion)
    | .ok candidate => action candidate

/-- Whether outlining may change a method of which the selection is given. -/
def isChosen (selection : List MethodIndex) (method : Method) : Bool :=
  !method.synthetic && selection.contains method.index

def surveyCandidate (method : MethodIndex) (candidate : Window.Candidate) : Pass Unit := do
  count fun statistics => { statistics with candidates := statistics.candidates + 1 }
  modify fun pipeline =>
    { pipeline with census := pipeline.census.record candidate.template method }

def survey : Pass Unit := do
  advance .created .surveyed
  let pipeline ← get
  (pipeline.program.methods.filter (!·.synthetic)).forM fun method => do
    count fun statistics => { statistics with methodsScanned := statistics.methodsScanned + 1 }
    forEachCandidate method (surveyCandidate method.index)
  let surveyed ← get
  count fun statistics => { statistics with templates := surveyed.census.size }

/-- Selects the methods with a frequent template, and forgets the census. -/
def select : Pass (List MethodIndex) := do
  advance .surveyed .selected
  let pipeline ← get
  let selection := pipeline.census.select pipeline.options.methodThreshold
  set { pipeline with
    census := .empty
    statistics := { pipeline.statistics with methodsSelected := selection.length } }
  return selection

def siteOf (method : MethodIndex) (candidate : Window.Candidate) : Site :=
  ⟨method, candidate.block, candidate.start, candidate.stop⟩

def recordCandidate (method : MethodIndex) (candidate : Window.Candidate) : Pass Unit := do
  modify fun pipeline =>
    { pipeline with
      ledger := (pipeline.ledger.record candidate.template (siteOf method candidate)).1 }
  count fun statistics => { statistics with sites := statistics.sites + 1 }

def record (selection : List MethodIndex) : Pass Unit := do
  advance .selected .recorded
  let pipeline ← get
  (pipeline.program.methods.filter (isChosen selection)).forM fun method =>
    forEachCandidate method (recordCandidate method.index)

/-- Builds the holder with an outline for every template that has enough sites. Its methods are
numbered from `first` on. -/
def build (type : Descriptor) (first : MethodIndex) : Pass Holder := do
  let before ← get
  if before.phase = .recorded ∧ before.ledger.isEmpty then throw .noSitesRecorded
  advance .recorded .built
  let pipeline ← get
  match Holder.build type pipeline.options.nameStem first
      (pipeline.ledger.select pipeline.options.siteThreshold) with
  | .error fault => throw fault
  | .ok (holder, outlines) =>
    set { pipeline with
      outlines := outlines
      statistics := { pipeline.statistics with outlines := holder.methods.length } }
    return holder

/-- The call of an outline in place of a candidate. It keeps the first line known for an
operation of the window. -/
def callFor (outline : Outline) (candidate : Window.Candidate) (window : List Instruction) :
    Instruction where
  opcode := .call .static outline.reference false
  operands := candidate.arguments
  result := if outline.reference.prototype.returnType.isVoid then none else candidate.result
  line := (window.filter (!·.isTransparent)).findSome? (·.line)

def windowOf (method : Method) (candidate : Window.Candidate) : List Instruction :=
  match method.blocks[candidate.block]? with
  | some block => (block.instructions.drop candidate.start).take (candidate.stop - candidate.start)
  | none => []

/-- The edits for the windows found: a window whose template has an outline must be recorded as a
site, which is struck out. -/
def edits (method : Method) : List Window.Found → Pass (List Edit)
  | [] => pure []
  | .error assertion :: _ => throw (.assertion assertion)
  | .ok candidate :: rest => do
    let pipeline ← get
    match outlineFor? pipeline.outlines candidate.template with
    | none => edits method rest
    | some outline =>
      match pipeline.ledger.strike? outline.index (siteOf method.index candidate) with
      | none =>
        throw (.siteNotFound method.reference candidate.block candidate.start candidate.stop)
      | some ledger =>
        set { pipeline with ledger := ledger }
        let window := windowOf method candidate
        if candidate.arguments.length ≠ outline.reference.prototype.parameters.length then
          throw (.assertion .callArity)
        if !window.getLast?.any (·.isOperation) then throw (.assertion .windowEnd)
        let others ← edits method rest
        return ⟨candidate.block, candidate.start, candidate.stop,
          callFor outline candidate window⟩ :: others

def rewriteMethod (method : Method) : Pass Method := do
  let pipeline ← get
  let found ← edits method (method.scan pipeline.options.limits)
  if found.isEmpty then return method
  count fun statistics =>
    { statistics with
      sitesRewritten := statistics.sitesRewritten + found.length
      instructionsRemoved :=
        statistics.instructionsRemoved + (Rewriting.removedFrom found method).length }
  return Rewriting.apply found (.ofMethod method) method

def replaceMethod (place : Nat) (method : Method) : Pass Unit :=
  modify fun pipeline =>
    { pipeline with program := ⟨pipeline.program.methods.set place method⟩ }

/-- The first outline by name that has sites left, with their number. -/
def leftover? (pipeline : Pipeline) : Option (Outline × Nat) :=
  let outlines := pipeline.outlines.mergeSort fun left right =>
    (compare left.reference.name right.reference.name).isLE
  outlines.findSome? fun outline =>
    let remaining := pipeline.ledger.remaining outline.index
    if remaining = 0 then none else some (outline, remaining)

/-- Fails if a site of an outline was not rewritten. -/
def check : Pass Unit := do
  let pipeline ← get
  match pipeline.leftover? with
  | some (outline, remaining) => throw (.sitesRemaining outline.reference remaining)
  | none => pure ()

/-- Rewrites the selected methods one after the other. -/
def rewrite (selection : List MethodIndex) : Pass Unit := do
  advance .built .rewritten
  let pipeline ← get
  pipeline.program.methods.zipIdx.forM fun (method, place) => do
    if isChosen selection method then
      replaceMethod place (← rewriteMethod method)
  if pipeline.options.verify then check

/-- Takes all steps, and appends the outlines to the program. There is no holder if outlining is
switched off or has found nothing worth an outline. -/
def run : Pass (Option Holder) := do
  let created ← get
  if !created.options.enabled then return none
  survey
  let selection ← select
  record selection
  let recorded ← get
  if recorded.ledger.isEmpty then return none
  let holder ← build recorded.options.holderType recorded.program.methods.length
  if holder.methods.isEmpty then return none
  rewrite selection
  modify fun pipeline =>
    { pipeline with program := holder.methods.foldl Program.append pipeline.program }
  return some holder

end Pipeline

end Outlining
