import Outlining.Proofs.Bytecode.Assignment
import Outlining.Proofs.Bytecode.Renaming
import Outlining.Proofs.Pipeline.Validity

/-! A scan compares values with one another and looks up their types, reads and roots. It never
looks at their names, so in a body with its values renamed it finds the same windows, which pass and
return the values under their other names. -/
namespace Outlining

open Outlining.Bytecode Outlining.Template

namespace Window

section Renamed

variable (rename : Var → Var)

def Argument.renamed (argument : Argument) : Argument :=
  { argument with value := rename argument.value }

def Temporary.renamed (temporary : Temporary) : Temporary :=
  { temporary with value := rename temporary.value }

def Allocation.renamed (allocation : Allocation) : Allocation :=
  { allocation with value := rename allocation.value }

/-- The window with its values renamed. -/
def renamed (window : Window) : Window :=
  { window with
    arguments := window.arguments.map (·.renamed rename)
    temporary := window.temporary.map (·.renamed rename)
    pending := window.pending.map (·.renamed rename) }

/-- The candidate with its values renamed; all else, the template among it, is the same. -/
def Candidate.renamed (candidate : Candidate) : Candidate :=
  { candidate with
    arguments := candidate.arguments.map rename
    result := candidate.result.map rename }

end Renamed

/-- Whether a scope knows the same of the values under their other names. -/
structure Scope.Renames (rename : Var → Var) (scope copy : Scope) : Prop where
  injective : Function.Injective rename
  limits : copy.limits = scope.limits
  types : ∀ value, copy.method.typeOf (rename value) = scope.method.typeOf value
  reads : ∀ value, copy.usage.reads (rename value) = scope.usage.reads value
  roots : ∀ value, copy.usage.root (rename value) = rename (scope.usage.root value)

variable {rename : Var → Var} {scope copy : Scope} {window : Window} {instruction : Instruction}
  {temporary : Option Var} {arguments : List Argument} {operands : List (Var × Nat)}

section Instruction

/-! What does not look at values at all. -/

theorem role_renamed : (instruction.renamed rename).role = instruction.role := by
  simp only [Instruction.role, Instruction.renamed, List.length_map, Option.isSome_map,
    Option.isNone_map]

theorem isTransparent_renamed :
    (instruction.renamed rename).isTransparent = instruction.isTransparent := by
  rw [Instruction.isTransparent, Instruction.isTransparent, role_renamed]

theorem isOperation_renamed :
    (instruction.renamed rename).isOperation = instruction.isOperation := by
  rw [Instruction.isOperation, Instruction.isOperation, role_renamed]

theorem parameterType_renamed (type : ValueType) (slot : Nat) :
    parameterType type (instruction.renamed rename) slot = parameterType type instruction slot :=
  rfl

theorem operation_renamed :
    Operation.ofInstruction? (instruction.renamed rename) =
      Operation.ofInstruction? instruction := by
  simp only [Operation.ofInstruction?, Instruction.renamed, Option.isSome_map]

end Instruction

theorem temporaryValue_renamed :
    (window.renamed rename).temporaryValue = window.temporaryValue.map rename := by
  rw [temporaryValue, temporaryValue, renamed, Option.map_map, Option.map_map]
  rfl

theorem consume_renamed (temporary : Temporary) (reads : Nat) :
    (temporary.renamed rename).consume reads =
      (temporary.consume reads).map (·.renamed rename) := by
  unfold Temporary.consume Temporary.renamed
  split
  · rfl
  · rfl

theorem bind_consume_renamed (reads : Nat) :
    (window.renamed rename).temporary.bind (·.consume reads) =
      (window.temporary.bind (·.consume reads)).map (·.renamed rename) := by
  rw [renamed, Option.bind_map, Option.map_bind]
  exact congrArg _ (funext fun temporary => consume_renamed temporary reads)

theorem template_renamed (instructions : List Instruction) :
    (window.renamed rename).template (instructions.map (·.renamed rename)) =
      window.template instructions := by
  unfold template renamed
  congr 1
  · rw [List.filter_map, List.filterMap_map]
    simp only [Function.comp_def, isOperation_renamed, operation_renamed]
  · simp only [List.map_map, Function.comp_def, Argument.renamed]
  · simp only [Option.map_map, Function.comp_def, Temporary.renamed]

namespace Scope.Renames

variable (renames : scope.Renames rename copy)
include renames

/-- A value stands for another one exactly if it did under the other names. -/
theorem root_eq_iff (temporary : Option Var) (operand : Var) :
    some (copy.usage.root (rename operand)) = temporary.map rename ↔
      some (scope.usage.root operand) = temporary := by
  rw [renames.roots, ← Option.map_some, (Option.map_injective renames.injective).eq_iff]

theorem readsTemporary (operand : Var) :
    (window.renamed rename).readsTemporary copy (rename operand) =
      window.readsTemporary scope operand := by
  rw [Window.readsTemporary, Window.readsTemporary, temporaryValue_renamed, Bool.eq_iff_iff,
    beq_iff_eq, beq_iff_eq, renames.root_eq_iff]

theorem operandsInOrder :
    (window.renamed rename).operandsInOrder copy (instruction.renamed rename) =
      (window.operandsInOrder scope instruction).map rename := by
  unfold Window.operandsInOrder
  split
  · rename_i op numeric left right opcode operands
    obtain ⟨first, others, shape, rfl, more⟩ := List.map_eq_cons_iff.mp operands
    obtain ⟨second, others, rfl, rfl, none⟩ := List.map_eq_cons_iff.mp more
    obtain rfl := List.map_eq_nil_iff.mp none
    have same : instruction.opcode = .arithmetic op numeric := opcode
    simp only [same, shape, renames.readsTemporary]
    split
    · rfl
    · rfl
  · rename_i general
    split
    · rename_i op numeric left right opcode operands
      exact absurd (by rw [Instruction.renamed, operands]; rfl)
        (general op numeric (rename left) (rename right) opcode)
    · rfl

theorem zipIdx_operandsInOrder :
    ((window.renamed rename).operandsInOrder copy (instruction.renamed rename)).zipIdx =
      (window.operandsInOrder scope instruction).zipIdx.map (Prod.map rename id) := by
  rw [renames.operandsInOrder, List.zipIdx_map]

theorem temporaryReads :
    (window.renamed rename).temporaryReads copy (instruction.renamed rename) =
      window.temporaryReads scope instruction := by
  rw [Window.temporaryReads, Window.temporaryReads, Instruction.renamed, List.countP_map]
  exact List.countP_congr fun operand _ => by rw [Function.comp_apply, renames.readsTemporary]

theorem overwrites :
    (window.renamed rename).overwrites copy (instruction.renamed rename) =
      window.overwrites scope instruction := by
  rw [Window.overwrites, Window.overwrites, renames.temporaryReads, bind_consume_renamed,
    Option.isSome_map, Instruction.renamed, Option.isSome_map]

theorem constructsPending :
    (window.renamed rename).constructsPending copy (instruction.renamed rename) =
      window.constructsPending scope instruction := by
  unfold Window.constructsPending renamed
  cases window.pending with
  | none => rfl
  | some allocation =>
    have receiver : ((instruction.operands.map rename).head?.map copy.usage.root ==
        some (rename allocation.value)) =
          (instruction.operands.head?.map scope.usage.root == some allocation.value) := by
      cases instruction.operands with
      | nil => rfl
      | cons operand operands =>
        rw [Bool.eq_iff_iff, beq_iff_eq, beq_iff_eq]
        exact renames.root_eq_iff (some allocation.value) operand
    exact congrArg (_ && ·) receiver

theorem registers (arguments : List Argument) :
    copy.registers (arguments.map (·.renamed rename)) = scope.registers arguments := by
  rw [Scope.registers, Scope.registers, List.foldr_map]
  simp only [Argument.renamed, renames.types]

theorem supports (type : ValueType) : copy.supports type = scope.supports type := by
  rw [Scope.supports, Scope.supports, renames.limits]

theorem carries (operand : Var) :
    (·.value == copy.usage.root (rename operand)) ∘ Argument.renamed rename =
      (·.value == scope.usage.root operand) := by
  funext argument
  rw [Function.comp_apply, Argument.renamed, renames.roots, Bool.eq_iff_iff, beq_iff_eq,
    beq_iff_eq, renames.injective.eq_iff]

theorem fit (arguments : List Argument) :
    copy.fit (temporary.map rename) (instruction.renamed rename)
        (arguments.map (·.renamed rename)) (operands.map (Prod.map rename id)) =
      (scope.fit temporary instruction arguments operands).map
        (List.map (·.renamed rename)) := by
  induction operands generalizing arguments with
  | nil => rfl
  | cons pair rest inductionHypothesis =>
    obtain ⟨operand, slot⟩ := pair
    simp only [List.map_cons, Prod.map_apply, id_eq, Scope.fit, renames.root_eq_iff,
      List.find?_map, renames.carries, parameterType_renamed]
    split
    · exact inductionHypothesis arguments
    · rw [renames.roots, renames.types]
      cases arguments.find? (·.value == scope.usage.root operand) with
      | some known =>
        have type : (known.renamed rename).type = known.type := rfl
        simp only [Option.map_some, type]
        split
        · exact inductionHypothesis arguments
        · rfl
      | none =>
        dsimp only [Option.map_none]
        rw [renames.supports]
        split
        · rw [← inductionHypothesis, List.map_append]
          rfl
        · rfl

theorem bind (arguments : List Argument) :
    copy.bind (temporary.map rename) (instruction.renamed rename)
        (arguments.map (·.renamed rename)) (operands.map (Prod.map rename id)) =
      (scope.bind temporary instruction arguments operands).map
        (List.map (·.renamed rename)) id := by
  induction operands generalizing arguments with
  | nil => rfl
  | cons pair rest inductionHypothesis =>
    obtain ⟨operand, slot⟩ := pair
    simp only [List.map_cons, Prod.map_apply, id_eq, Scope.bind, renames.root_eq_iff,
      List.findIdx?_map, renames.carries]
    split
    · rw [inductionHypothesis]
      rfl
    · rw [renames.roots, renames.types]
      cases arguments.findIdx? (·.value == scope.usage.root operand) with
      | some index =>
        dsimp only
        rw [inductionHypothesis]
        rfl
      | none =>
        have appended := inductionHypothesis (arguments ++ [⟨scope.usage.root operand,
          parameterType (scope.method.typeOf (scope.usage.root operand)) instruction slot⟩])
        rw [List.map_append] at appended
        dsimp only
        rw [List.length_map]
        exact congrArg (Prod.map id (Slot.argument arguments.length :: ·)) appended

theorem fits :
    (window.renamed rename).fits copy (instruction.renamed rename) =
      window.fits scope instruction := by
  rw [Window.fits, Window.fits, renames.zipIdx_operandsInOrder, temporaryValue_renamed]
  rw [show (window.renamed rename).arguments = window.arguments.map (·.renamed rename) from rfl,
    renames.fit]
  cases scope.fit window.temporaryValue instruction window.arguments
      (window.operandsInOrder scope instruction).zipIdx with
  | none => rfl
  | some arguments =>
    dsimp only [Option.map_some]
    rw [renames.registers, renames.limits]

theorem admits :
    (window.renamed rename).admits copy (instruction.renamed rename) =
      window.admits scope instruction := by
  have moves (kind : CallKind) (target : Reference) (relocatable : Bool) :
      (window.renamed rename).callMoves kind target relocatable =
        window.callMoves kind target relocatable := by
    rw [callMoves, callMoves, renamed, Option.isSome_map]
  rw [Window.admits, Window.admits, renames.overwrites, renames.constructsPending, role_renamed]
  simp only [renames.fits, moves]
  rfl

theorem isRead (value : Var) : copy.usage.isRead (rename value) = scope.usage.isRead value := by
  rw [Usage.isRead, Usage.isRead, renames.reads]

theorem produce (value : Var) (type : Descriptor) :
    copy.produce (rename value) type =
      (scope.produce value type).map (·.renamed rename) := by
  rw [Scope.produce, Scope.produce, renames.isRead, renames.reads]
  split
  · rfl
  · rfl

theorem takeRefinement :
    (window.renamed rename).takeRefinement copy (instruction.renamed rename) =
      (window.takeRefinement scope instruction).renamed rename := by
  rw [Window.takeRefinement, Window.takeRefinement, Instruction.refinement?_renamed]
  cases instruction.refinement? with
  | none => rfl
  | some pair =>
    obtain ⟨result, source⟩ := pair
    dsimp only [Option.map_some, Prod.map_apply]
    rw [renames.readsTemporary]
    split
    · unfold renamed
      cases window.temporary with
      | none => rfl
      | some temporary =>
        dsimp only [Option.map_some, Option.bind_some, Temporary.renamed]
        rw [renames.reads]
        split
        · rfl
        · rfl
    · rfl

theorem takeResult :
    (window.renamed rename).takeResult copy (instruction.renamed rename) =
      (window.takeResult scope instruction).renamed rename := by
  obtain ⟨opcode, operands, result, line⟩ := instruction
  unfold Window.takeResult Instruction.renamed
  cases opcode
  case allocate cls =>
    cases result with
    | none => rfl
    | some result =>
      dsimp only [Option.map_some]
      rw [renames.produce, renames.isRead]
      split
      · rfl
      · rfl
  case call kind target relocatable =>
    cases result with
    | none =>
      dsimp only [Option.map_none, renamed]
      split
      · rfl
      · rfl
    | some result =>
      dsimp only [Option.map_some]
      rw [renames.produce]
      unfold renamed
      split
      · rfl
      · rfl
  case arithmetic op numeric =>
    cases result with
    | none => rfl
    | some result =>
      dsimp only [Option.map_some]
      rw [renames.produce]
      rfl
  all_goals rfl

theorem takeOperation :
    (window.renamed rename).takeOperation copy (instruction.renamed rename) =
      (window.takeOperation scope instruction).renamed rename := by
  rw [Window.takeOperation, Window.takeOperation, renames.zipIdx_operandsInOrder,
    temporaryValue_renamed, renames.temporaryReads, bind_consume_renamed,
    show (window.renamed rename).arguments = window.arguments.map (·.renamed rename) from rfl,
    renames.bind]
  obtain ⟨arguments, slots⟩ := scope.bind window.temporaryValue instruction window.arguments
    (window.operandsInOrder scope instruction).zipIdx
  dsimp only
  rw [← renames.takeResult]
  rfl

theorem take :
    (window.renamed rename).take copy (instruction.renamed rename) =
      (window.take scope instruction).renamed rename := by
  unfold Window.take
  rw [role_renamed, renames.takeRefinement, renames.takeOperation]
  split
  · rfl
  · rfl
  · rfl

/-- A window grows over the renamed instructions as over the original ones. -/
theorem grow (window : Window) (ahead : List Instruction) :
    Window.grow copy (window.renamed rename) (ahead.map (·.renamed rename)) =
      (Window.grow scope window ahead).map (Prod.map (·.renamed rename) id) := by
  have ended (window : Window) :
      (window.renamed rename).ended = window.ended.map (Prod.map (·.renamed rename) id) := by
    rw [Window.ended, Window.ended, show (window.renamed rename).taken = window.taken from rfl]
    cases window.taken with
    | zero => rfl
    | succ last => rfl
  induction ahead generalizing window with
  | nil => exact ended window
  | cons instruction rest inductionHypothesis =>
    have taken : (window.renamed rename).taken = window.taken := rfl
    have operations (window : Window) : (window.renamed rename).operations = window.operations :=
      rfl
    simp only [List.map_cons, Window.grow, isTransparent_renamed, renames.admits, renames.take,
      renames.limits, inductionHypothesis, ended, taken, operations]
    split
    · rfl
    · split
      · split
        · rfl
        · rfl
      · rfl

theorem candidate (block : Label) (start : Nat) (window : Window)
    (instructions : List Instruction) :
    Window.candidate copy block start (window.renamed rename)
        (instructions.map (·.renamed rename)) =
      (Window.candidate scope block start window instructions).map (·.renamed rename) := by
  have passed : copy.registers (window.renamed rename).arguments =
      scope.registers window.arguments := renames.registers window.arguments
  have kept : trim (instructions.map (·.renamed rename)) =
      (trim instructions).map (·.renamed rename) := trim_map fun _ _ => isTransparent_renamed
  simp only [Window.candidate, kept, template_renamed, passed, renames.limits,
    temporaryValue_renamed, List.length_map]
  split
  · rfl
  · split
    · rfl
    · simp only [Except.map, Candidate.renamed, renamed, List.map_map]
      rfl

theorem close (block : Label) (start : Nat) (ahead : List Instruction) (window : Window)
    (last : Nat) :
    Window.close copy block start (ahead.map (·.renamed rename)) (window.renamed rename) last =
      (Window.close scope block start ahead window last).map
        (Option.map (Except.map (·.renamed rename))) id := by
  have pending : (window.renamed rename).pending = window.pending.map (·.renamed rename) := rfl
  have operations : (window.renamed rename).operations = window.operations := rfl
  rw [Window.close, Window.close, pending]
  cases window.pending with
  | some allocation => rfl
  | none =>
    simp only [Option.map_none, operations, renames.limits, ← List.map_take, renames.candidate]
    split
    · rfl
    · rfl

theorem scanAhead (block : Label) (start skip : Nat) (ahead : List Instruction) :
    Window.scanAhead copy block start skip (ahead.map (·.renamed rename)) =
      (Window.scanAhead scope block start skip ahead).map (Except.map (·.renamed rename)) := by
  induction ahead generalizing start skip with
  | nil => cases skip <;> rfl
  | cons instruction rest inductionHypothesis =>
    cases skip with
    | succ skip => exact inductionHypothesis (start + 1) skip
    | zero =>
      have grown := renames.grow Window.empty (instruction :: rest)
      have empty : Window.empty.renamed rename = Window.empty := rfl
      rw [empty] at grown
      rw [List.map_cons, Window.scanAhead, Window.scanAhead, ← List.map_cons, grown]
      cases Window.grow scope Window.empty (instruction :: rest) with
      | none => exact inductionHypothesis (start + 1) 0
      | some ended =>
        obtain ⟨window, last⟩ := ended
        dsimp only [Option.map_some, Prod.map_apply, id_eq]
        rw [renames.close]
        obtain ⟨found, skip⟩ := Window.close scope block start (instruction :: rest) window last
        dsimp only [Prod.map_apply, id_eq]
        rw [inductionHypothesis, List.map_append]
        cases found with
        | none => rfl
        | some found => rfl

theorem scanBlock (block : Block) :
    Window.scanBlock copy (block.renamed rename) =
      (Window.scanBlock scope block).map (Except.map (·.renamed rename)) :=
  renames.scanAhead block.label 0 0 block.instructions

end Scope.Renames

theorem Scope.renames_ofMethod {method copy : Method} (valid : method.defect? = none)
    (acyclic : Acyclic method) (renames : Renaming rename method copy) (limits : Limits) :
    (Scope.ofMethod method limits).Renames rename (.ofMethod copy limits) where
  injective := renames.injective
  limits := rfl
  types := renames.typeOf
  reads := renames.reads_usage
  roots := renames.root_usage valid acyclic

theorem Candidate.renamed_congr {candidate : Candidate} {other : Var → Var}
    (arguments : ∀ value ∈ candidate.arguments, other value = rename value)
    (result : ∀ value, candidate.result = some value → other value = rename value) :
    candidate.renamed other = candidate.renamed rename := by
  rw [renamed, renamed, List.map_congr_left arguments, Option.map_congr fun value returned =>
    result value returned]

end Window

namespace Bytecode

variable {rename : Var → Var} {method copy : Method}

theorem Renaming.scan (renames : Renaming rename method copy) (valid : method.defect? = none)
    (acyclic : Acyclic method) (limits : Window.Limits) :
    copy.scan limits = (method.scan limits).map (Except.map (·.renamed rename)) := by
  have scopes := Window.Scope.renames_ofMethod valid acyclic renames limits
  simp only [Method.scan, renames.blocks, List.flatMap_map, List.map_flatMap, scopes.scanBlock]

/-- Scanning is independent of the names of values: where the values of a method get other names,
in a table of any size, the same windows are found in the same order, with the same templates, and
only the values that they pass and return are named differently. -/
theorem scan_renamed (renamed : Renamed rename method copy) (valid : method.defect? = none)
    (acyclic : Acyclic method) (limits : Window.Limits) :
    copy.scan limits = (method.scan limits).map (Except.map (·.renamed rename)) := by
  rw [(renamed.renaming_beyond valid).scan valid acyclic]
  -- a window passes and returns values of the table, and there both renamings agree
  refine List.map_congr_left fun found present => ?_
  cases found with
  | error assertion => rfl
  | ok candidate =>
    refine congrArg Except.ok (Window.Candidate.renamed_congr (fun value passed => ?_)
      fun value returned => ?_)
    · exact beyond_of_lt (Pipeline.argument_lt valid present passed)
    · exact beyond_of_lt (Pipeline.result_lt valid present returned)

/-- A method that makes an instance, which a refinement parts from its constructor, and asks it for
a number. -/
def asksInstance : Method where
  index := 0
  reference := ⟨⟨"LA;"⟩, "m", ⟨.int, [.int]⟩⟩
  types := [.number .int, .object ⟨"LB;"⟩ [], .object ⟨"LB;"⟩ [], .number .int]
  blocks := [⟨0, [⟨.argument 0, [], some 0, none⟩, ⟨.allocate ⟨"LB;"⟩, [], some 1, none⟩,
    ⟨.refine, [1], some 2, none⟩,
    ⟨.call .direct ⟨⟨"LB;"⟩, "<init>", ⟨.void, [.int]⟩⟩ true, [2, 0], none, none⟩,
    ⟨.call .virtual ⟨⟨"LB;"⟩, "get", ⟨.int, []⟩⟩ true, [1], some 3, none⟩,
    ⟨.ret, [3], none, none⟩], [], []⟩]
  synthetic := false

/-- The same method, with its values the other way around in a table with gaps between them. -/
def asksInstanceMirrored : Method :=
  { asksInstance with
    types := [.null, .number .int, .null, .object ⟨"LB;"⟩ [], .null, .object ⟨"LB;"⟩ [], .null,
      .number .int]
    blocks := asksInstance.blocks.map (·.renamed (7 - 2 * ·)) }

theorem exists_scan_renamed : ∃ candidate,
    asksInstance.scan ⟨1, 9, 5, false⟩ = [.ok candidate] ∧
      candidate.arguments = [0] ∧ candidate.result = some 3 ∧
      asksInstanceMirrored.scan ⟨1, 9, 5, false⟩ = [.ok (candidate.renamed (7 - 2 * ·))] := by
  have assigned : asksInstance.SingleAssignment :=
    ⟨⟨asksInstance.blocks, .refl _, by decide⟩, by simp [asksInstance, Method.instructions],
      by simp [asksInstance, Method.instructions]⟩
  have renamed : Renamed (7 - 2 * ·) asksInstance asksInstanceMirrored :=
    ⟨by decide, by decide, rfl⟩
  have same := scan_renamed renamed (by decide) assigned.acyclic ⟨1, 9, 5, false⟩
  have once : ∃ candidate ∈ Pipeline.found ⟨1, 9, 5, false⟩ asksInstance,
      asksInstance.scan ⟨1, 9, 5, false⟩ = [.ok candidate] ∧ candidate.arguments = [0] ∧
        candidate.result = some 3 := by decide +kernel
  obtain ⟨candidate, _, alone, passes, returns⟩ := once
  exact ⟨candidate, alone, passes, returns, by rw [same, alone]; rfl⟩

end Bytecode

end Outlining
