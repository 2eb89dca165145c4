import Outlining.Bytecode.Method
import Outlining.Text.Layout
import Outlining.Text.Quoted

namespace Outlining.Bytecode

open Outlining.Text

def varText (value : Var) : String := "v" ++ toString value

def varsText (values : List Var) : String := commas (values.map varText)

namespace Literal

def text : Literal → String
  | .int value => toString value
  | .string value => quote value
  | .cls descriptor => descriptor.text
  | .null => "null"

end Literal

namespace Instruction

/-- What an instruction works on, as a listing shows it. -/
def detail (instruction : Instruction) : String :=
  match instruction.opcode with
  | .argument index => "#" ++ toString index
  | .literal value => value.text
  | .allocate cls => cls.text
  | .call _ target relocatable =>
    "\x7b" ++ varsText instruction.operands ++ "\x7d " ++ target.text
      ++ (if relocatable then "" else " [pinned]")
  | _ => varsText instruction.operands

def text (instruction : Instruction) : String :=
  (match instruction.result with
    | some result => varText result ++ " <- "
    | none => "")
    ++ column 18 instruction.mnemonic ++ instruction.detail

end Instruction

namespace Block

def lines (block : Block) : List String :=
  ["  block " ++ toString block.label ++ ":"]
    ++ block.instructions.map ("    " ++ ·.text)
    ++ (if block.successors.isEmpty then []
        else ["    -> " ++ commas (block.successors.map toString)])
    ++ block.handlers.map fun handler =>
      "    catch " ++ handler.guard.text ++ " -> " ++ toString handler.target

end Block

namespace Method

def lines (method : Method) : List String :=
  ("method " ++ method.reference.text) :: method.blocks.flatMap (·.lines)

def listing (method : Method) : String := unlines method.lines

end Method

end Outlining.Bytecode
