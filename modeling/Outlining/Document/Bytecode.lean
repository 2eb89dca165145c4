import Outlining.Bytecode.Method
import Outlining.Document.Reading

namespace Outlining.Document

open Outlining.Bytecode

def natural (value : Nat) : Node := .int value

/-- A value or null in a document. -/
def orNull {α : Type} (write : α → Node) : Option α → Node
  | some value => write value
  | none => .null

def listOf {α : Type} (write : α → Node) (items : List α) : Node := .list (items.map write)

/-! ## Types -/

def writeDescriptor (descriptor : Descriptor) : Node := .text descriptor.text

def readDescriptor : Decoder Descriptor := fun setting node =>
  (readText setting node).map Descriptor.mk

def readNumeric : Decoder Numeric := readChoice Numeric.ofName?

def writeValueType : ValueType → Node
  | .number numeric => .table [("kind", .text "primitive"), ("numeric", .text numeric.name)]
  | .object cls interfaces =>
    .table [("class", writeDescriptor cls), ("interfaces", listOf writeDescriptor interfaces),
      ("kind", .text "class")]
  | .array element => .table [("element", writeValueType element), ("kind", .text "array")]
  | .null => .table [("kind", .text "null")]

def valueTypeTags : List String := ["primitive", "class", "array", "null"]

/-- Reads a value type that is no array, given its tag. -/
def readFlatType (tag : String) (setting : Setting) (fields : Node) : Option ValueType :=
  match tag with
  | "primitive" => do
    let record ← Record.ofNode? setting 1 fields
    return .number (← record.required setting 0 "numeric" readNumeric)
  | "class" => do
    let record ← Record.ofNode? setting 2 fields
    let cls ← record.required setting 0 "class" readDescriptor
    return .object cls (← record.optional setting 1 ["interfaces"] [] (readList readDescriptor))
  | "null" => do
    readNothing fields
    return .null
  | _ => none

def readValueType (setting : Setting) : Node → Option ValueType
  | .table entries =>
    match (member? "kind" entries).bind (readTag valueTypeTags setting) with
    | some "array" =>
      match found : member? "element" entries with
      | some element =>
        have := sizeOf_member? found
        (readValueType setting.inside element).map .array
      | none => none
    | some tag => readFlatType tag setting.inside (.table entries)
    | none => none
  | .list [tag, element] =>
    match readTag valueTypeTags setting tag with
    | some "array" => (readValueType setting.inside element).map .array
    | some tag => readFlatType tag setting.inside (.list [element])
    | none => none
  | .list (tag :: fields) =>
    match readTag valueTypeTags setting tag with
    | some tag => readFlatType tag setting.inside (.list fields)
    | none => none
  | _ => none

def writePrototype (prototype : Prototype) : Node :=
  .table [("parameters", listOf writeDescriptor prototype.parameters),
    ("return_type", writeDescriptor prototype.returnType)]

def readPrototype : Decoder Prototype := fun setting node => do
  let record ← Record.ofNode? setting 2 node
  let returnType ← record.required setting 0 "return_type" readDescriptor
  return ⟨returnType,
    ← record.optional setting 1 ["parameters"] [] (readList readDescriptor)⟩

def writeReference (reference : Reference) : Node :=
  .table [("holder", writeDescriptor reference.holder), ("name", .text reference.name),
    ("proto", writePrototype reference.prototype)]

def readReference : Decoder Reference := fun setting node => do
  let record ← Record.ofNode? setting 3 node
  let holder ← record.required setting 0 "holder" readDescriptor
  let name ← record.required setting 1 "name" readText
  return ⟨holder, name, ← record.required setting 2 "proto" readPrototype⟩

/-! ## Instructions -/

def writeLiteral : Literal → Node
  | .int value => .table [("int", .int value)]
  | .string value => .table [("string", .text value)]
  | .cls descriptor => .table [("class", writeDescriptor descriptor)]
  | .null => .text "null"

def readLiteral : Decoder Literal := fun setting node =>
  match node with
  | .text "null" => some .null
  | .table [("int", value)] => (readInteger setting value).map .int
  | .table [("string", value)] => (readText setting value).map .string
  | .table [("class", value)] => (readDescriptor setting value).map .cls
  | .table [("null", content)] => if setting.countsAsNothing content then some .null else none
  | _ => none

def readBinaryOp : Decoder BinaryOp := readChoice BinaryOp.ofName?

def readCallKind : Decoder CallKind := readChoice CallKind.ofName?

def writeOpcode : Opcode → Node
  | .argument index => .table [("index", natural index), ("op", .text "argument")]
  | .literal value => .table [("op", .text "const"), ("value", writeLiteral value)]
  | .refine => .table [("op", .text "assume")]
  | .arithmetic op numeric =>
    .table [("kind", .text op.name), ("numeric", .text numeric.name), ("op", .text "binop")]
  | .allocate cls => .table [("class", writeDescriptor cls), ("op", .text "new-instance")]
  | .call kind target relocatable =>
    .table [("kind", .text kind.name), ("method", writeReference target), ("op", .text "invoke"),
      ("relocatable", .bool relocatable)]
  | .ret => .table [("op", .text "return")]
  | .jump => .table [("op", .text "goto")]
  | .branch => .table [("op", .text "if")]
  | .raise => .table [("op", .text "throw")]
  | .other name => .table [("name", .text name), ("op", .text "other")]

def opcodeTags : List String :=
  ["argument", "const", "assume", "binop", "new-instance", "invoke", "return", "goto", "if",
    "throw", "other"]

def readOpcodeFields (tag : String) (setting : Setting) (fields : Node) : Option Opcode :=
  match tag with
  | "argument" => do
    let record ← Record.ofNode? setting 1 fields
    return .argument (← record.required setting 0 "index" readIndex)
  | "const" => do
    let record ← Record.ofNode? setting 1 fields
    return .literal (← record.required setting 0 "value" readLiteral)
  | "assume" => (readNothing fields).map fun _ => .refine
  | "binop" => do
    let record ← Record.ofNode? setting 2 fields
    let op ← record.required setting 0 "kind" readBinaryOp
    return .arithmetic op (← record.required setting 1 "numeric" readNumeric)
  | "new-instance" => do
    let record ← Record.ofNode? setting 1 fields
    return .allocate (← record.required setting 0 "class" readDescriptor)
  | "invoke" => do
    let record ← Record.ofNode? setting 3 fields
    let kind ← record.required setting 0 "kind" readCallKind
    let target ← record.required setting 1 "method" readReference
    return .call kind target (← record.optional setting 2 ["relocatable"] false readBool)
  | "return" => (readNothing fields).map fun _ => .ret
  | "goto" => (readNothing fields).map fun _ => .jump
  | "if" => (readNothing fields).map fun _ => .branch
  | "throw" => (readNothing fields).map fun _ => .raise
  | "other" => do
    let record ← Record.ofNode? setting 1 fields
    return .other (← record.required setting 0 "name" readText)
  | _ => none

def readOpcode : Decoder Opcode := fun setting node => do
  let (tag, fields) ← readTagged "op" opcodeTags setting node
  readOpcodeFields tag setting.inside fields

def writeInstruction (instruction : Instruction) : Node :=
  .table [("inputs", listOf natural instruction.operands), ("kind", writeOpcode instruction.opcode),
    ("output", orNull natural instruction.result), ("position", orNull natural instruction.line)]

def readInstruction : Decoder Instruction := fun setting node => do
  let record ← Record.ofNode? setting 4 node
  let opcode ← record.required setting 0 "kind" readOpcode
  let operands ← record.optional setting 1 ["inputs"] [] (readList readIndex)
  let result ← record.optional setting 2 ["output"] none (readOption readIndex)
  let line ← record.optional setting 3 ["position"] none (readOption readIndex)
  return ⟨opcode, operands, result, line⟩

/-! ## Methods and programs -/

def writeHandler (handler : Handler) : Node :=
  .table [("guard", writeDescriptor handler.guard), ("target", natural handler.target)]

def readHandler : Decoder Handler := fun setting node => do
  let record ← Record.ofNode? setting 2 node
  let guard ← record.required setting 0 "guard" readDescriptor
  return ⟨guard, ← record.required setting 1 "target" readIndex⟩

def writeBlock (block : Block) : Node :=
  .table [("catch_handlers", listOf writeHandler block.handlers), ("id", natural block.label),
    ("instructions", listOf writeInstruction block.instructions),
    ("successors", listOf natural block.successors)]

def readBlock : Decoder Block := fun setting node => do
  let record ← Record.ofNode? setting 4 node
  let label ← record.required setting 0 "id" readIndex
  let instructions ← record.optional setting 1 ["instructions"] [] (readList readInstruction)
  let successors ← record.optional setting 2 ["successors"] [] (readList readIndex)
  let handlers ← record.optional setting 3 ["catch_handlers"] [] (readList readHandler)
  return ⟨label, instructions, successors, handlers⟩

def writeMethod (method : Method) : Node :=
  .table [("blocks", listOf writeBlock method.blocks), ("id", natural method.index),
    ("is_outline", .bool method.synthetic), ("reference", writeReference method.reference),
    ("values", listOf writeValueType method.types)]

def readMethod : Decoder Method := fun setting node => do
  let record ← Record.ofNode? setting 5 node
  let index ← record.required setting 0 "id" readIndex
  let reference ← record.required setting 1 "reference" readReference
  let types ← record.optional setting 2 ["values"] [] (readList readValueType)
  let blocks ← record.optional setting 3 ["blocks"] [] (readList readBlock)
  let synthetic ← record.optional setting 4 ["is_outline"] false readBool
  return ⟨index, reference, types, blocks, synthetic⟩

def readProgram : Decoder Program := fun setting node => do
  let record ← Record.ofNode? setting 1 node
  return ⟨← record.optional setting 0 ["methods"] [] (readList readMethod)⟩

end Outlining.Document
