import Outlining.Bytecode.Method

/-! A method is valid if every block stands at its label, every target and every value exists, and
every refinement has one operand. A program is valid if moreover every method stands at its index.
The check reports the first defect in the order of the blocks; within a block it looks at the label,
at the targets, and then at each instruction. The lemmas say what it means that there is no defect.
-/
namespace Outlining.Bytecode

inductive Defect where
  | misplacedBlock (label : Label) (place : Nat)
  | missingTarget (label target : Label)
  | undefinedValue (mnemonic : String) (value : Var)
  | refinementArity
  | misplacedMethod (index : MethodIndex) (place : Nat)
deriving DecidableEq

def Defect.message (reference : Reference) : Defect → String
  | .misplacedBlock label place =>
    reference.text ++ ": block " ++ toString label ++ " stored at index " ++ toString place
  | .missingTarget label target =>
    reference.text ++ ": block " ++ toString label ++ " targets missing block " ++ toString target
  | .undefinedValue mnemonic value =>
    reference.text ++ ": " ++ mnemonic ++ " references undefined value v" ++ toString value
  | .refinementArity => reference.text ++ ": assume takes exactly one input"
  | .misplacedMethod index place =>
    reference.text ++ ": method id " ++ toString index ++ " stored at index " ++ toString place

def Instruction.values (instruction : Instruction) : List Var :=
  instruction.operands ++ instruction.result.toList

def Instruction.defect? (instruction : Instruction) (types : Nat) : Option Defect :=
  match instruction.values.find? (types ≤ ·) with
  | some value => some (.undefinedValue instruction.mnemonic value)
  | none =>
    if instruction.opcode = .refine ∧ instruction.operands.length ≠ 1 then some .refinementArity
    else none

/-- The first defect of the block at `place` in a body with `types` values and `blocks` blocks. -/
def Block.defect? (block : Block) (types blocks place : Nat) : Option Defect :=
  if block.label ≠ place then some (.misplacedBlock block.label place)
  else
    match block.targets.find? (blocks ≤ ·) with
    | some target => some (.missingTarget block.label target)
    | none => block.instructions.findSome? (·.defect? types)

def Method.defect? (method : Method) : Option Defect :=
  method.blocks.zipIdx.findSome? fun (block, place) =>
    block.defect? method.types.length method.blocks.length place

def Method.complaint? (method : Method) : Option String :=
  method.defect?.map (·.message method.reference)

/-- The first defect of the method at `place`. -/
def Method.defectAt? (method : Method) (place : Nat) : Option Defect :=
  if method.index ≠ place then some (.misplacedMethod method.index place) else method.defect?

def Program.complaint? (program : Program) : Option String :=
  program.methods.zipIdx.findSome? fun (method, place) =>
    (method.defectAt? place).map (·.message method.reference)

/-- A search for a value that is too large fails if all values are small enough. -/
theorem find?_le_eq_none_iff (bound : Nat) (values : List Nat) :
    values.find? (bound ≤ ·) = none ↔ ∀ value ∈ values, value < bound := by
  simp

theorem Instruction.defect?_eq_none_iff (instruction : Instruction) (types : Nat) :
    instruction.defect? types = none ↔
      (∀ value ∈ instruction.values, value < types) ∧
        (instruction.opcode = .refine → instruction.operands.length = 1) := by
  rw [← find?_le_eq_none_iff, Instruction.defect?]
  cases instruction.values.find? (types ≤ ·) with
  | some value => simp
  | none => simp

theorem Block.defect?_eq_none_iff (block : Block) (types blocks place : Nat) :
    block.defect? types blocks place = none ↔
      block.label = place ∧ (∀ target ∈ block.targets, target < blocks) ∧
        ∀ instruction ∈ block.instructions, instruction.defect? types = none := by
  rw [← find?_le_eq_none_iff, Block.defect?]
  by_cases placed : block.label = place
  · cases block.targets.find? (blocks ≤ ·) with
    | some target => simp [placed]
    | none => simp [placed]
  · simp [placed]

theorem findSome?_zipIdx_eq_none_iff {α β : Type} (items : List α) (result : α × Nat → Option β) :
    items.zipIdx.findSome? result = none ↔
      ∀ place item, items[place]? = some item → result (item, place) = none := by
  rw [List.findSome?_eq_none_iff]
  constructor
  · intro all place item found
    exact all _ (List.mem_zipIdx_iff_getElem?.mpr found)
  · rintro all ⟨item, place⟩ member
    exact all place item (List.mem_zipIdx_iff_getElem?.mp member)

theorem Method.defect?_eq_none_iff (method : Method) :
    method.defect? = none ↔
      ∀ (place : Nat) (block : Block), method.blocks[place]? = some block →
        block.defect? method.types.length method.blocks.length place = none :=
  findSome?_zipIdx_eq_none_iff method.blocks _

theorem Program.complaint?_eq_none_iff (program : Program) :
    program.complaint? = none ↔
      ∀ (place : Nat) (method : Method), program.methods[place]? = some method →
        method.index = place ∧ method.defect? = none := by
  rw [Program.complaint?, findSome?_zipIdx_eq_none_iff]
  refine forall_congr' fun place => forall_congr' fun method => imp_congr_right fun _ => ?_
  by_cases placed : method.index = place
  · simp [Method.defectAt?, placed]
  · simp [Method.defectAt?, placed]

end Outlining.Bytecode
