import Outlining.Proofs.Pipeline.Coverage
import Outlining.Proofs.Rewriting.Validity
import Outlining.Proofs.Window.Awaited
import Outlining.Proofs.Window.Rejection

/-! In a method in single assignment form, a candidate that is not full is followed by literals and
refinements up to the end of its block, or up to an instruction that a rule keeps out of it. The
counters of the scan never reject an instruction that the rules allow. -/
namespace Outlining

open Outlining.Bytecode Outlining.Template Outlining.Window

/-- The values that an instruction behind a candidate would add to what the candidate passes. -/
def Window.Candidate.fresh (candidate : Candidate) (method : Method) (next : Instruction) :
    List Var :=
  unpassed (Usage.ofMethod method).root candidate.result candidate.arguments next.operands

namespace Pipeline

variable {method : Method} {limits : Limits} {candidate : Candidate} {block : Block}
  {before taken after : List Instruction} {next : Instruction} {window : Window} {label : Label}
  {place start : Nat}

/-- The rules by which a candidate does not cover the instruction at a place behind it. -/
inductive Barred (method : Method) (limits : Limits) (candidate : Candidate) (place : Nat)
    (next : Instruction) : Prop where
  | unsupported (role : next.role = .unsupported)
  | pinned {kind : CallKind} {target : Reference} (opcode : next.opcode = .call kind target false)
  | constructor {kind : CallKind} {target : Reference} {relocatable : Bool}
      (opcode : next.opcode = .call kind target relocatable)
      (constructs : target.isConstructor = true)
  /-- It would overwrite the result, which is read elsewhere, be it under another name. -/
  | awaited {result value : Var} {reader : Instruction} {label : Label} {readerPlace : Nat}
      (produces : next.result.isSome = true) (returns : candidate.result = some result)
      (named : value = result ∨ ∃ other refinement source, candidate.start ≤ other ∧
        other < place ∧ method.instruction? candidate.block other = some refinement ∧
        refinement.refinement? = some (value, source) ∧
        (Usage.ofMethod method).root value = result)
      (found : method.instruction? label readerPlace = some reader)
      (read : value ∈ reader.operands)
      (outside : ¬ (label = candidate.block ∧ candidate.start ≤ readerPlace ∧ readerPlace ≤ place))
  | registers (exceeds : limits.maxRegisters < candidate.registers +
      ((candidate.fresh method next).map fun value => (method.typeOf value).width).sum)
  /-- It would pass an array of interfaces or of null. -/
  | array {value : Var} (fresh : value ∈ candidate.fresh method next)
      (forbidden : limits.interfaceArrays = false) (array : (method.typeOf value).isArray = true)
      (base : (method.typeOf value).base = .null ∨ ∃ cls interfaces,
        (method.typeOf value).base = .object cls interfaces ∧ interfaces ≠ [])
  /-- An operand repeats an argument of the candidate with another parameter. -/
  | retyped {slot index : Nat} {operand : Var} {type : Descriptor}
      (read : next.operands[slot]? = some operand)
      (fed : some ((Usage.ofMethod method).root operand) ≠ candidate.result)
      (passed : candidate.arguments[index]? = some ((Usage.ofMethod method).root operand))
      (typed : candidate.template.argumentTypes[index]? = some type)
      (differs : type ≠
        parameterType (method.typeOf ((Usage.ofMethod method).root operand)) next slot)
  /-- Two operands ask for the same new argument with different parameters. -/
  | repeated {slot otherSlot : Nat} {operand other : Var}
      (read : next.operands[slot]? = some operand)
      (again : next.operands[otherSlot]? = some other)
      (fresh : (Usage.ofMethod method).root operand ∈ candidate.fresh method next)
      (same : (Usage.ofMethod method).root other = (Usage.ofMethod method).root operand)
      (differs :
        parameterType (method.typeOf ((Usage.ofMethod method).root operand)) next slot ≠
          parameterType (method.typeOf ((Usage.ofMethod method).root operand)) next otherSlot)

/-- Operands that cannot be passed with the arguments of a window bar their instruction. -/
theorem Barred.of_unfit
    (closed : Closed (.ofMethod method limits) label start taken window candidate)
    (unfit : (Scope.ofMethod method limits).Unfit window.temporaryValue next window.arguments
      (window.operandsInOrder (.ofMethod method limits) next).zipIdx) :
    Barred method limits candidate place next := by
  have reordered := reordered_operandsInOrder window (.ofMethod method limits) next
  have among {operand : Var} {slot : Nat}
      (read : (window.operandsInOrder (.ofMethod method limits) next)[slot]? = some operand)
      (fed : some ((Usage.ofMethod method).root operand) ≠ window.temporaryValue)
      (fresh : (Usage.ofMethod method).root operand ∉ window.arguments.map (·.value)) :
      (Usage.ofMethod method).root operand ∈ candidate.fresh method next := by
    rw [Candidate.fresh, mem_unpassed_iff, closed.temporaryValue_eq, closed.arguments_eq]
    exact ⟨⟨operand, (reordered.mem_iff operand).mp (List.mem_of_getElem? read), rfl⟩, fed, fresh⟩
  cases unfit with
  | unsupported read fed fresh refused =>
    obtain ⟨forbidden, array, base⟩ := Scope.of_supports refused
    exact .array (among (List.mem_zipIdx_iff_getElem?.mp read) fed fresh) forbidden array base
  | @retyped operand slot argument read fed known value differs =>
    obtain ⟨index, found⟩ := List.mem_iff_getElem?.mp known
    obtain ⟨other, there, alike, _⟩ :=
      reordered.exists_place (List.mem_zipIdx_iff_getElem?.mp read)
    have passed : candidate.arguments[index]? = some ((Usage.ofMethod method).root operand) := by
      rw [closed.arguments_eq, List.getElem?_map, found, Option.map_some, value]
      rfl
    have typed : candidate.template.argumentTypes[index]? = some argument.type := by
      rw [closed.argumentTypes_eq, List.getElem?_map, found]
      rfl
    exact .retyped there (closed.temporaryValue_eq ▸ fed) passed typed (alike _ ▸ differs)
  | repeated read again fed fresh same differs =>
    have first := List.mem_zipIdx_iff_getElem?.mp read
    obtain ⟨slot, there, alike, _⟩ := reordered.exists_place first
    obtain ⟨otherSlot, otherThere, otherAlike, _⟩ :=
      reordered.exists_place (List.mem_zipIdx_iff_getElem?.mp again)
    exact .repeated there otherThere (among first fed fresh) same
      (by rw [← alike, ← otherAlike]; exact differs)

theorem Barred.of_fits
    (closed : Closed (.ofMethod method limits) label start taken window candidate)
    (fails : window.fits (.ofMethod method limits) next = false) :
    Barred method limits candidate place next := by
  rcases unfit_of_fits closed.grown.nodup_arguments fails with unfit | exceeds
  · exact .of_unfit closed unfit
  · refine .registers ?_
    rw [Candidate.fresh, closed.same]
    exact exceeds

theorem instruction?_of_split (there : method.blocks[label]? = some block)
    (split : block.instructions = before ++ next :: after) :
    method.instruction? label before.length = some next := by
  refine instruction?_eq_some_iff.mpr ⟨block, there, ?_⟩
  rw [split, List.getElem?_append_right (Nat.le_refl _), Nat.sub_self]
  rfl

/-- The instructions of a method in order, around one of them: what follows it stands behind it or
in another block. -/
theorem exists_arranged_at (valid : method.defect? = none) (assigned : method.SingleAssignment)
    (present : block ∈ method.blocks) (split : block.instructions = before ++ next :: after) :
    ∃ past future, Arranged method (past ++ before ++ next :: future) ∧
      ∀ reader ∈ future, ∃ label place, method.instruction? label place = some reader ∧
        ¬ (label = block.label ∧ place ≤ before.length) := by
  have labelled := labelled_of_valid valid
  obtain ⟨earlier, later, perm, arranged⟩ := exists_arranged_block valid assigned present
  refine ⟨earlier.flatMap (·.instructions), after ++ later.flatMap (·.instructions),
    by simpa [split] using arranged, fun reader member => ?_⟩
  rcases List.mem_append.mp member with behind | beyond
  · obtain ⟨first, second, rfl⟩ := List.append_of_mem behind
    have around : block.instructions = (before ++ next :: first) ++ reader :: second := by
      simp [split]
    refine ⟨block.label, (before ++ next :: first).length,
      instruction?_of_split (labelled.getElem? present) around, fun inside => ?_⟩
    rw [List.length_append, List.length_cons] at inside
    omega
  · obtain ⟨other, among, inside⟩ := List.mem_flatMap.mp beyond
    obtain ⟨place, found⟩ := List.mem_iff_getElem?.mp inside
    have listed : other ∈ method.blocks :=
      perm.mem_iff.mp (List.mem_append_right _ (List.mem_cons_of_mem _ among))
    have distinct : ((earlier ++ block :: later).map (·.label)).Nodup := by
      rw [(perm.map _).nodup_iff, Rewriting.labels_of_labelled labelled]
      exact List.nodup_range'
    rw [List.map_append, List.map_cons] at distinct
    have alone := (List.nodup_cons.mp (List.nodup_append.mp distinct).2.1).1
    exact ⟨other.label, place, instruction?_eq_some_iff.mpr ⟨other, labelled.getElem? listed, found⟩,
      fun same => alone (same.1 ▸ List.mem_map_of_mem among)⟩

/-- An operation that would overwrite the result of a candidate is barred. -/
theorem Barred.of_overwrites (valid : method.defect? = none) (assigned : method.SingleAssignment)
    (present : block ∈ method.blocks)
    (split : block.instructions = before ++ taken ++ next :: after)
    (closed : Closed (.ofMethod method limits) block.label before.length taken window candidate)
    (operates : next.isOperation = true)
    (overwrites : window.overwrites (.ofMethod method limits) next = true) :
    Barred method limits candidate (before.length + taken.length) next := by
  have there := (labelled_of_valid valid).getElem? present
  have here : candidate.block = block.label := by rw [closed.same]
  have start : candidate.start = before.length := by rw [closed.same]
  obtain ⟨past, future, arranged, elsewhere⟩ := exists_arranged_at valid assigned present split
  rw [← List.append_assoc past] at arranged
  obtain ⟨result, standing, reader, member, value, read, stands, named⟩ :=
    closed.grown.exists_reader arranged (Instruction.refinement?_eq_none operates) overwrites
  have names : value = result ∨ ∃ other refinement source, candidate.start ≤ other ∧
      other < before.length + taken.length ∧
      method.instruction? candidate.block other = some refinement ∧
      refinement.refinement? = some (value, source) ∧
      (Usage.ofMethod method).root value = result := by
    refine named.imp_right ?_
    rintro ⟨refinement, among, source, refines⟩
    obtain ⟨first, second, rfl⟩ := List.append_of_mem among
    have around : block.instructions =
        (before ++ first) ++ refinement :: (second ++ next :: after) := by
      simp [split]
    refine ⟨(before ++ first).length, refinement, source, ?_, ?_,
      here ▸ instruction?_of_split there around, refines, stands⟩
    · rw [start, List.length_append]
      omega
    · simp only [List.length_append, List.length_cons]
      omega
  obtain ⟨label, place, found, outside⟩ := elsewhere reader member
  refine .awaited (Bool.and_eq_true_iff.mp overwrites).1 (closed.temporaryValue_eq.trans standing)
    names found read fun ⟨same, _, within⟩ => outside ⟨same.trans here, ?_⟩
  rwa [List.length_append]

/-- A candidate that is not full is followed by literals and refinements alone, or by some of them
and then an instruction that a rule keeps out of it. -/
theorem candidates_end_where_barred (valid : method.defect? = none)
    (assigned : method.SingleAssignment) (found : .ok candidate ∈ method.scan limits)
    (room : candidate.operations < limits.maxSize) :
    ∃ block, method.blocks[candidate.block]? = some block ∧
      ((∀ instruction ∈ block.instructions.drop candidate.stop,
          instruction.isTransparent = true) ∨
        ∃ between next after,
          block.instructions.drop candidate.stop = between ++ next :: after ∧
          (∀ instruction ∈ between, instruction.isTransparent = true) ∧
          next.isTransparent = false ∧
          Barred method limits candidate (candidate.stop + between.length) next) := by
  obtain ⟨block, present, member⟩ := List.mem_flatMap.mp found
  obtain ⟨before, taken, after, window, split, _, closed, halted, _⟩ := exists_halted member
  have place : candidate.stop + (trailing taken).length = before.length + taken.length := by
    rw [closed.same, Nat.add_assoc, length_trim_add]
  refine ⟨block, ?_, ?_⟩
  · rw [closed.same]
    exact (labelled_of_valid valid).getElem? present
  rw [closed.drop_stop split]
  cases halted with
  | done =>
    refine .inl fun instruction listed => ?_
    rw [List.append_nil] at listed
    exact transparent_of_mem_trailing listed
  | full full =>
    have operations : candidate.operations = window.operations := by rw [closed.same]
    exact absurd (operations ▸ room) (Nat.not_lt.mpr full)
  | @refused next rest solid refused =>
    refine .inr ⟨trailing taken, next, rest, rfl, fun _ => transparent_of_mem_trailing, solid, ?_⟩
    rw [place]
    rcases rejected_cases closed.settled solid refused with
      unsupported | ⟨kind, target, opcode⟩ | ⟨kind, target, relocatable, opcode, constructs⟩ |
        ⟨operates, overwrites | fails⟩
    · exact .unsupported unsupported
    · exact .pinned opcode
    · exact .constructor opcode constructs
    · exact .of_overwrites valid assigned present split closed operates overwrites
    · exact .of_fits closed fails

/-- A method that reads a difference under another name once a product is computed. -/
def defersDifference : Method where
  index := 0
  reference := ⟨⟨"LA;"⟩, "m", ⟨.int, [.int, .int]⟩⟩
  types := List.replicate 6 (.number .int)
  blocks := [⟨0, [⟨.argument 0, [], some 0, none⟩, ⟨.argument 1, [], some 1, none⟩,
    ⟨.arithmetic .sub .int, [0, 1], some 2, none⟩, ⟨.refine, [2], some 3, none⟩,
    ⟨.arithmetic .mul .int, [0, 1], some 4, none⟩, ⟨.arithmetic .add .int, [3, 4], some 5, none⟩,
    ⟨.ret, [5], none, none⟩], [], []⟩]
  synthetic := false

/-- The window that ends before the product. -/
def difference : Candidate where
  block := 0
  start := 2
  stop := 3
  template := ⟨[.arithmetic .sub .int], [.int, .int], [.argument 0, .argument 1], .int⟩
  arguments := [0, 1]
  registers := 2
  result := some 2
  operations := 1

theorem barred_of_difference :
    defersDifference.defect? = none ∧ defersDifference.SingleAssignment ∧
      .ok difference ∈ defersDifference.scan ⟨1, 9, 9, false⟩ ∧ difference.operations < 9 ∧
      Barred defersDifference ⟨1, 9, 9, false⟩ difference 4
        ⟨.arithmetic .mul .int, [0, 1], some 4, none⟩ := by
  have valid : defersDifference.defect? = none := by decide
  have assigned : defersDifference.SingleAssignment :=
    ⟨⟨defersDifference.blocks, .refl _, by decide⟩,
      by simp [defersDifference, Method.instructions],
      by simp [defersDifference, Method.instructions]⟩
  have found : .ok difference ∈ defersDifference.scan ⟨1, 9, 9, false⟩ := by decide
  refine ⟨valid, assigned, found, by decide, ?_⟩
  obtain ⟨block, there, ends⟩ :=
    candidates_end_where_barred valid assigned found (by decide : difference.operations < 9)
  cases there
  rcases ends with transparent | ⟨between, next, after, split, transparent, solid, barred⟩
  · exact absurd (transparent ⟨.ret, [5], none, none⟩ (by decide)) (by decide)
  · rcases between with _ | ⟨refinement, _ | ⟨product, others⟩⟩
    · cases split
      cases solid
    · cases split
      exact barred
    · have second := congrArg (·[1]?) split
      cases second
      exact absurd (transparent _ (List.mem_cons_of_mem _ List.mem_cons_self)) (by decide)

end Pipeline

end Outlining
