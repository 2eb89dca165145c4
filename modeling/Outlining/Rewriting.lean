import Outlining.Bytecode.Usage
import Outlining.Window.Role

/-! Each edit replaces a window of a block by one call. Literals inside the window stay in front of
the call, since other instructions may read them; what read a refinement inside the window reads the
refined value instead. In a guarded block the call ends its block, so that the block is split after
each call. -/
namespace Outlining

open Outlining.Bytecode

/-- The replacement of the instructions of `block` from `start` to before `stop` by `call`. -/
structure Edit where
  block : Label
  start : Nat
  stop : Nat
  call : Instruction
deriving DecidableEq, Inhabited

namespace Rewriting

/-- The instructions of a window that an edit may remove: all but the last, which the call
replaces, and the literals. -/
def removed (window : List Instruction) : List Instruction :=
  window.dropLast.filter fun instruction => instruction.role != .literal

def kept (window : List Instruction) : List Instruction :=
  window.dropLast.filter fun instruction => instruction.role == .literal

def windowOf (edit : Edit) (place : Nat) (instructions : List Instruction) : List Instruction :=
  (instructions.drop (edit.start - place)).take (edit.stop - edit.start)

def windows (edits : List Edit) (instructions : List Instruction) : List (List Instruction) :=
  edits.map fun edit => windowOf edit 0 instructions

/-- Cuts the instructions at `place` after each call: the instructions up to each call with the
windows replaced, and last the instructions after all windows. -/
def splice (place : Nat) : List Edit → List Instruction → List (List Instruction) × List Instruction
  | [], instructions => ([], instructions)
  | edit :: rest, instructions =>
    let before := instructions.take (edit.start - place)
    let after := instructions.drop (edit.stop - place)
    let (segments, final) := splice edit.stop rest after
    ((before ++ kept (windowOf edit place instructions) ++ [edit.call]) :: segments, final)

/-- The jump at the end of a block that was split off from the rest. -/
def jump : Instruction := ⟨.jump, [], none, none⟩

/-- Joins the segments of a guarded block: every segment but the last jumps to a fresh block, and
the last one goes where the block went before. Fresh blocks are named from `label` on. -/
def chain (handlers : List Handler) (successors : List Label) (label : Label) :
    List Instruction → List (List Instruction) → List Instruction × List Label × List Block
  | segment, [] => (segment, successors, [])
  | segment, next :: rest =>
    let (instructions, targets, blocks) := chain handlers successors (label + 1) next rest
    (segment ++ [jump], [label], ⟨label, instructions, targets, handlers⟩ :: blocks)

/-- A block after its edits, and the fresh blocks that follow it, which are named from `label`
on. -/
def rewriteBlock (edits : List Edit) (label : Label) (block : Block) : Block × List Block :=
  let (segments, final) := splice 0 edits block.instructions
  if block.isGuarded then
    match segments ++ (if final.isEmpty then [] else [final]) with
    | [] => (block, [])
    | first :: rest =>
      let (instructions, successors, fresh) :=
        chain block.handlers block.successors label first rest
      ({ block with instructions := instructions, successors := successors }, fresh)
  else ({ block with instructions := segments.flatten ++ final }, [])

def editsOf (edits : List Edit) (label : Label) : List Edit := edits.filter (·.block == label)

/-- The blocks after their edits, and the fresh blocks in the order of their labels. -/
def rewriteBlocks (edits : List Edit) (label : Label) : List Block → List Block × List Block
  | [] => ([], [])
  | block :: rest =>
    match editsOf edits block.label with
    | [] =>
      let (blocks, fresh) := rewriteBlocks edits label rest
      (block :: blocks, fresh)
    | edit :: others =>
      let (rewritten, split) := rewriteBlock (edit :: others) label block
      let (blocks, fresh) := rewriteBlocks edits (label + split.length) rest
      (rewritten :: blocks, split ++ fresh)

def removedFrom (edits : List Edit) (method : Method) : List Instruction :=
  method.blocks.flatMap fun block =>
    (windows (editsOf edits block.label) block.instructions).flatMap removed

def refinedBy (instructions : List Instruction) : List Var :=
  (instructions.filter (·.role == .refinement)).filterMap (·.result)

/-- Replaces the operands of an instruction that are no longer defined. -/
def redirect (gone : List Var) (usage : Usage) (instruction : Instruction) : Instruction :=
  { instruction with
    operands := instruction.operands.map fun value =>
      if gone.contains value then usage.root value else value }

def apply (edits : List Edit) (usage : Usage) (method : Method) : Method :=
  let gone := refinedBy (removedFrom edits method)
  let (blocks, fresh) := rewriteBlocks edits method.blocks.length method.blocks
  { method with
    blocks := (blocks ++ fresh).map fun block =>
      { block with instructions := block.instructions.map (redirect gone usage) } }

end Rewriting

end Outlining
