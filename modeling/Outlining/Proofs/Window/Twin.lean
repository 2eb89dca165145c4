import Outlining.Proofs.Window.Wiring

namespace Outlining.Window

open Outlining.Bytecode Outlining.Template

variable {scope copy : Scope} {instruction twin : Instruction} {window other : Window}
  {temporary : Option Var} {arguments : List Argument} {operands copies : List (Var × Nat)}

/-- Whether two scopes have the same types and limits. -/
structure Scope.Agrees (scope copy : Scope) : Prop where
  types : copy.method.types = scope.method.types
  limits : copy.limits = scope.limits

/-- Whether two instructions do the same to values with the same roots. -/
structure Twins (scope copy : Scope) (instruction twin : Instruction) : Prop where
  opcode : twin.opcode = instruction.opcode
  result : twin.result = instruction.result
  operands : twin.operands.map copy.usage.root = instruction.operands.map scope.usage.root

/-- The value and the type of a temporary. -/
def Temporary.tag (temporary : Temporary) : Var × Descriptor := (temporary.value, temporary.type)

/-- Whether two windows differ at most in the number of reads that are left of the temporary. -/
structure Alike (window other : Window) : Prop where
  taken : other.taken = window.taken
  operations : other.operations = window.operations
  arguments : other.arguments = window.arguments
  slots : other.slots = window.slots
  temporary : other.temporary.map (·.tag) = window.temporary.map (·.tag)
  pending : other.pending = window.pending

theorem Alike.refl (window : Window) : Alike window window := ⟨rfl, rfl, rfl, rfl, rfl, rfl⟩

theorem Alike.temporaryValue (alike : Alike window other) :
    other.temporaryValue = window.temporaryValue := by
  have values := congrArg (Option.map Prod.fst) alike.temporary
  rwa [Option.map_map, Option.map_map] at values

/-- The tag that the temporary has after an instruction, if it is still to be read. -/
def offer (window : Window) (instruction : Instruction) : Option (Var × Descriptor) :=
  match instruction.opcode, instruction.result with
  | .allocate cls, some result => some (result, cls)
  | .call _ target _, some result => some (result, target.prototype.returnType)
  | .arithmetic _ numeric, some result => some (result, numeric.descriptor)
  | _, _ => window.temporary.map (·.tag)

private theorem tag_of_consume {window : Window} {reads : Nat} {temporary : Temporary}
    (known : window.temporary.bind (·.consume reads) = some temporary) :
    some temporary.tag = window.temporary.map (·.tag) := by
  obtain ⟨before, same, consumed⟩ := Option.bind_eq_some_iff.mp known
  rw [(eq_of_consume consumed).1, same]
  rfl

theorem tag_takeOperation {temporary : Temporary}
    (known : (window.takeOperation scope instruction).temporary = some temporary) :
    some temporary.tag = window.offer instruction := by
  have produced {value : Var} {type : Descriptor}
      (made : scope.produce value type = some temporary) :
      some temporary.tag = some (value, type) := by
    rw [(eq_of_produce made).1]
    rfl
  unfold takeOperation takeResult at known
  unfold offer
  cases opcode : instruction.opcode <;> cases result : instruction.result <;>
    simp only [opcode, result] at known ⊢ <;>
    first | exact produced known | exact tag_of_consume known

theorem tag_takeRefinement {temporary : Temporary}
    (known : (window.takeRefinement scope instruction).temporary = some temporary) :
    some temporary.tag = window.temporary.map (·.tag) := by
  unfold takeRefinement at known
  split at known
  · split at known
    · obtain ⟨before, same, kept⟩ := Option.bind_eq_some_iff.mp known
      dsimp only at kept
      split at kept
      · cases kept
      · cases kept
        rw [same]
        rfl
    · rw [known]
      rfl
  · rw [known]
    rfl

theorem tag_take {temporary : Temporary}
    (known : (window.take scope instruction).temporary = some temporary) :
    some temporary.tag = window.offer instruction := by
  unfold take at known
  split at known
  · rename_i role
    obtain ⟨value, opcode⟩ := Instruction.role_eq_literal_iff.mp role
    dsimp only at known
    simp only [offer, opcode]
    rw [known]
    rfl
  · rename_i role
    simp only [offer, (Instruction.role_eq_refinement_iff.mp role).1]
    exact tag_takeRefinement known
  · exact tag_takeOperation known

theorem pending_take (window : Window) (scope : Scope) (instruction : Instruction) :
    (window.take scope instruction).pending =
      match instruction.opcode, instruction.result with
      | .allocate _, some result =>
        if scope.usage.isRead result then some ⟨window.taken, result⟩ else window.pending
      | .call _ target _, _ => if target.isConstructor then none else window.pending
      | _, _ => window.pending := by
  unfold take
  split
  · rename_i role
    obtain ⟨value, opcode⟩ := Instruction.role_eq_literal_iff.mp role
    rw [opcode]
  · rename_i role
    rw [(Instruction.role_eq_refinement_iff.mp role).1]
    unfold takeRefinement
    split
    · split <;> rfl
    · rfl
  · unfold takeOperation takeResult
    cases instruction.opcode <;> cases instruction.result <;> rfl

theorem isSome_temporary_allocate (window : Window) (scope : Scope) {cls : Descriptor}
    {result : Var} (opcode : instruction.opcode = .allocate cls)
    (writes : instruction.result = some result) :
    (window.take scope instruction).temporary.isSome = scope.usage.isRead result := by
  have role : instruction.role = .allocation :=
    Instruction.role_eq_allocation_iff.mpr ⟨cls, result, opcode, writes⟩
  simp only [take, role, takeOperation, takeResult, opcode, writes, Scope.produce]
  split <;> simp_all

namespace Twins

variable (twins : Twins scope copy instruction twin)
include twins

theorem length_operands : twin.operands.length = instruction.operands.length := by
  have lengths := congrArg List.length twins.operands
  rwa [List.length_map, List.length_map] at lengths

theorem role : twin.role = instruction.role := by
  simp only [Instruction.role, twins.opcode, twins.result, twins.length_operands]

theorem isTransparent : twin.isTransparent = instruction.isTransparent := by
  rw [Instruction.isTransparent, Instruction.isTransparent, twins.role]

theorem isOperation : twin.isOperation = instruction.isOperation := by
  rw [Instruction.isOperation, Instruction.isOperation, twins.role]

theorem target? : twin.target? = instruction.target? := by
  simp only [Instruction.target?, twins.opcode]

theorem operation : Operation.ofInstruction? twin = Operation.ofInstruction? instruction := by
  simp only [Operation.ofInstruction?, twins.opcode, twins.result]

theorem parameterType (type : ValueType) (slot : Nat) :
    parameterType type twin slot = parameterType type instruction slot := by
  simp only [Window.parameterType, twins.opcode]

end Twins

namespace Scope.Agrees

variable (agrees : scope.Agrees copy)
include agrees

theorem typeOf (value : Var) : copy.method.typeOf value = scope.method.typeOf value := by
  rw [Method.typeOf, Method.typeOf, agrees.types]

theorem supports (type : ValueType) : copy.supports type = scope.supports type := by
  rw [Scope.supports, Scope.supports, agrees.limits]

theorem registers (arguments : List Argument) :
    copy.registers arguments = scope.registers arguments := by
  simp only [Scope.registers, agrees.typeOf]

/-- Operands with the same roots fit alike in instructions that ask for the same parameters. -/
theorem fit
    (asks : ∀ type slot, parameterType type twin slot = parameterType type instruction slot)
    (roots : copies.map (Prod.map copy.usage.root id) =
      operands.map (Prod.map scope.usage.root id)) :
    copy.fit temporary twin arguments copies =
      scope.fit temporary instruction arguments operands := by
  induction operands generalizing copies arguments with
  | nil =>
    rw [List.map_eq_nil_iff.mp roots]
    rfl
  | cons entry operands inductionHypothesis =>
    obtain ⟨first, rest, rfl, heads, tails⟩ := List.map_eq_cons_iff.mp roots
    obtain ⟨operand, slot⟩ := entry
    obtain ⟨operandTwin, slotTwin⟩ := first
    simp only [Prod.map_apply, id_eq, Prod.mk.injEq] at heads
    obtain ⟨root, rfl⟩ := heads
    simp only [Scope.fit, root, agrees.typeOf, agrees.supports, asks,
      inductionHypothesis tails]

/-- Operands with the same roots are bound alike in instructions that ask for the same parameters. -/
theorem bind
    (asks : ∀ type slot, parameterType type twin slot = parameterType type instruction slot)
    (roots : copies.map (Prod.map copy.usage.root id) =
      operands.map (Prod.map scope.usage.root id)) :
    copy.bind temporary twin arguments copies =
      scope.bind temporary instruction arguments operands := by
  induction operands generalizing copies arguments with
  | nil =>
    rw [List.map_eq_nil_iff.mp roots]
    rfl
  | cons entry operands inductionHypothesis =>
    obtain ⟨first, rest, rfl, heads, tails⟩ := List.map_eq_cons_iff.mp roots
    obtain ⟨operand, slot⟩ := entry
    obtain ⟨operandTwin, slotTwin⟩ := first
    simp only [Prod.map_apply, id_eq, Prod.mk.injEq] at heads
    obtain ⟨root, rfl⟩ := heads
    simp only [Scope.bind, root, agrees.typeOf, asks, inductionHypothesis tails]

end Scope.Agrees

section Step

variable (alike : Alike window other) (same : Twins scope copy instruction twin)
include alike

theorem Alike.readsTemporary {operand operandTwin : Var}
    (root : copy.usage.root operandTwin = scope.usage.root operand) :
    other.readsTemporary copy operandTwin = window.readsTemporary scope operand := by
  rw [Window.readsTemporary, Window.readsTemporary, root, alike.temporaryValue]

include same

theorem Alike.operandsInOrder :
    (other.operandsInOrder copy twin).map copy.usage.root =
      (window.operandsInOrder scope instruction).map scope.usage.root := by
  have roots := same.operands
  unfold Window.operandsInOrder
  split
  · rename_i op numeric leftTwin rightTwin opcode operands
    obtain ⟨left, right, shape⟩ : ∃ left right, instruction.operands = [left, right] :=
      List.length_eq_two.mp (by rw [← same.length_operands, operands]; rfl)
    rw [operands, shape] at roots
    simp only [List.map_cons, List.map_nil, List.cons.injEq, and_true] at roots
    rw [← same.opcode, opcode, shape]
    simp only [alike.readsTemporary roots.1, alike.readsTemporary roots.2]
    split
    · simp [roots]
    · simp [roots]
  · rename_i general
    split
    · rename_i op numeric left right opcode operands
      obtain ⟨leftTwin, rightTwin, shape⟩ : ∃ left right, twin.operands = [left, right] :=
        List.length_eq_two.mp (by rw [same.length_operands, operands]; rfl)
      exact absurd shape (general op numeric leftTwin rightTwin (same.opcode.trans opcode))
    · exact roots

theorem Alike.zipIdx_operandsInOrder :
    (other.operandsInOrder copy twin).zipIdx.map (Prod.map copy.usage.root id) =
      (window.operandsInOrder scope instruction).zipIdx.map (Prod.map scope.usage.root id) := by
  rw [← List.zipIdx_map, ← List.zipIdx_map, alike.operandsInOrder same]

theorem Alike.constructsPending :
    other.constructsPending copy twin = window.constructsPending scope instruction := by
  have heads := congrArg List.head? same.operands
  rw [List.head?_map, List.head?_map] at heads
  simp only [Window.constructsPending, alike.pending, same.target?, heads]

theorem Alike.offer : other.offer twin = window.offer instruction := by
  simp only [Window.offer, same.opcode, same.result, alike.temporary]

variable (agrees : scope.Agrees copy)
include agrees

theorem Alike.bound : other.bound copy twin = window.bound scope instruction := by
  rw [Window.bound, Window.bound, alike.temporaryValue, alike.arguments,
    agrees.bind same.parameterType (alike.zipIdx_operandsInOrder same)]

theorem Alike.fits : other.fits copy twin = window.fits scope instruction := by
  rw [Window.fits, Window.fits, alike.temporaryValue, alike.arguments,
    agrees.fit same.parameterType (alike.zipIdx_operandsInOrder same)]
  simp only [agrees.registers, agrees.limits]

/-- Twins are admitted alike if they overwrite alike. -/
theorem Alike.admits
    (overwrites : other.overwrites copy twin = window.overwrites scope instruction) :
    other.admits copy twin = window.admits scope instruction := by
  simp only [Window.admits, overwrites, alike.constructsPending same, same.role, same.opcode,
    alike.fits same agrees, Window.callMoves, alike.pending]

/-- Twins are taken alike if their temporaries are still to be read in both scopes or in neither. -/
theorem Alike.take (present : (other.take copy twin).temporary.isSome =
      (window.take scope instruction).temporary.isSome) :
    Alike (window.take scope instruction) (other.take copy twin) where
  taken := by simp only [Window.take, alike.taken]
  operations := by
    simp only [Window.take, same.role]
    split <;> simp [alike.operations]
  arguments := by
    simp only [Window.take, same.role]
    split <;> simp [alike.arguments, alike.bound same agrees]
  slots := by
    simp only [Window.take, same.role]
    split <;> simp [alike.slots, alike.bound same agrees]
  temporary := by
    cases known : (window.take scope instruction).temporary with
    | none => simpa [known] using present
    | some temporary =>
      rw [known] at present
      obtain ⟨temporaryTwin, knownTwin⟩ := Option.isSome_iff_exists.mp present
      rw [knownTwin, Option.map_some, Option.map_some, tag_take knownTwin, tag_take known,
        alike.offer same]
  pending := by
    rw [pending_take, pending_take, same.opcode, same.result, alike.pending, alike.taken]
    split
    · rename_i cls result opcode writes
      have reads := present
      rw [isSome_temporary_allocate window scope opcode writes,
        isSome_temporary_allocate other copy (same.opcode.trans opcode)
          (same.result.trans writes)] at reads
      rw [reads]
    · rfl
    · rfl

end Step

end Outlining.Window
