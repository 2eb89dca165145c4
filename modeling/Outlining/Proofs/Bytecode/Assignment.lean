import Mathlib.Data.List.Basic
import Outlining.Proofs.Bytecode.Root

/-! A body is in single assignment form if its blocks can be put into an order in which every value
that is read has exactly one writer, which stands before all readers. In such a body refinements
form no cycle, and the writer of a value decides what its parent is. -/
namespace Outlining.Bytecode

variable {method : Method} {body past future instructions : List Instruction}
  {instruction reader writer : Instruction} {value : Var}

/-- The values that instructions write. -/
def results (instructions : List Instruction) : List Var := instructions.filterMap (·.result)

@[simp] theorem results_append (first second : List Instruction) :
    results (first ++ second) = results first ++ results second := by
  simp [results]

theorem results_cons_of_some (writes : instruction.result = some value) :
    results (instruction :: instructions) = value :: results instructions :=
  List.filterMap_cons_some writes

theorem mem_results_iff :
    value ∈ results instructions ↔ ∃ writer ∈ instructions, writer.result = some value := by
  simp [results]

/-- Every value that is read is written somewhere. -/
def Defined (instructions : List Instruction) : Prop :=
  ∀ instruction ∈ instructions, ∀ operand ∈ instruction.operands, operand ∈ results instructions

theorem defined_nil : Defined [] := nofun

theorem Defined.append_singleton (defined : Defined instructions)
    (reads : ∀ operand ∈ instruction.operands, operand ∈ results instructions) :
    Defined (instructions ++ [instruction]) := by
  intro reader member operand read
  rw [results_append, List.mem_append]
  rcases List.mem_append.mp member with member | member
  · exact .inl (defined reader member operand read)
  · obtain rfl := List.mem_singleton.mp member
    exact .inl (reads operand read)

/-- In this order every value that is read has one writer, which stands before all its readers. -/
def Ordered (body : List Instruction) : Prop :=
  ∀ past instruction future, body = past ++ instruction :: future →
    ∀ operand ∈ instruction.operands, operand ∈ results past ∧ (results body).count operand = 1

theorem ordered_iff : Ordered body ↔ ∀ place, ∀ inside : place < body.length,
    ∀ operand ∈ body[place].operands,
      operand ∈ results (body.take place) ∧ (results body).count operand = 1 := by
  constructor
  · intro ordered place inside
    exact ordered _ _ (body.drop (place + 1)) (by simp)
  · rintro each past instruction future rfl
    simpa using each past.length (by simp)

instance (body : List Instruction) : Decidable (Ordered body) :=
  decidable_of_iff _ ordered_iff.symm

/-- Whether each value read has one writer, which stands before its readers for some order of the
blocks. Literals and allocations read nothing. -/
structure Method.SingleAssignment (method : Method) : Prop where
  ordered : ∃ blocks : List Block, blocks.Perm method.blocks ∧ Ordered (blocks.flatMap (·.instructions))
  literals : ∀ instruction ∈ method.instructions, ∀ value, instruction.opcode = .literal value →
    instruction.operands = []
  allocations : ∀ instruction ∈ method.instructions, ∀ cls, instruction.opcode = .allocate cls →
    instruction.operands = []

theorem Ordered.count_eq_one (ordered : Ordered body) (member : reader ∈ body)
    (read : value ∈ reader.operands) : (results body).count value = 1 := by
  obtain ⟨past, future, split⟩ := List.append_of_mem member
  exact (ordered past reader future split value read).2

/-- What is read in a first part of the body is written there, and nowhere else. -/
theorem Ordered.of_append (ordered : Ordered (past ++ future)) (member : reader ∈ past)
    (read : value ∈ reader.operands) : value ∈ results past ∧ value ∉ results future := by
  obtain ⟨earlier, later, split⟩ := List.append_of_mem member
  obtain ⟨written, once⟩ := ordered earlier reader (later ++ future) (by simp [split]) value read
  have inside : value ∈ results past := by
    rw [split, results_append]
    exact List.mem_append_left _ written
  refine ⟨inside, fun again => ?_⟩
  rw [results_append, List.count_append] at once
  have first := List.count_pos_iff.mpr inside
  have second := List.count_pos_iff.mpr again
  omega

theorem Ordered.defined (ordered : Ordered body) : Defined body := by
  intro reader member value read
  rw [← List.append_nil body] at ordered
  exact (ordered.of_append member read).1

theorem eq_of_count_eq_one {first second : Instruction} (once : (results body).count value = 1)
    (firstMember : first ∈ body) (firstWrites : first.result = some value)
    (secondMember : second ∈ body) (secondWrites : second.result = some value) :
    first = second := by
  obtain ⟨past, future, rfl⟩ := List.append_of_mem firstMember
  by_contra differs
  have elsewhere : second ∈ past ++ future := by
    simp only [List.mem_append, List.mem_cons] at secondMember ⊢
    rcases secondMember with member | rfl | member
    · exact .inl member
    · exact absurd rfl differs
    · exact .inr member
  have again : 0 < (results (past ++ future)).count value :=
    List.count_pos_iff.mpr (mem_results_iff.mpr ⟨second, elsewhere, secondWrites⟩)
  rw [results_append, results_cons_of_some firstWrites, List.count_append,
    List.count_cons_self] at once
  rw [results_append, List.count_append] at again
  omega

theorem Ordered.notMem_past (ordered : Ordered (past ++ writer :: future))
    (member : reader ∈ past ++ writer :: future) (read : value ∈ reader.operands)
    (writes : writer.result = some value) : value ∉ results past := by
  intro before
  have once := ordered.count_eq_one member read
  have earlier := List.count_pos_iff.mpr before
  rw [results_append, results_cons_of_some writes, List.count_append, List.count_cons_self] at once
  omega

/-- The place of the writer of a value that is read; other values come after all instructions. -/
def writerPlace (body : List Instruction) (value : Var) : Nat :=
  if value ∈ body.flatMap (·.operands) then body.findIdx (·.result == some value) else body.length

theorem writerPlace_lt (ordered : Ordered (past ++ instruction :: future)) {source : Var}
    (read : source ∈ instruction.operands) (writes : instruction.result = some value) :
    writerPlace (past ++ instruction :: future) source <
      writerPlace (past ++ instruction :: future) value := by
  have member : instruction ∈ past ++ instruction :: future := by simp
  have written := (ordered past instruction future rfl source read).1
  have early : past.findIdx (·.result == some source) < past.length := by
    rw [List.findIdx_lt_length]
    obtain ⟨writer, present, result⟩ := mem_results_iff.mp written
    exact ⟨writer, present, by simp [result]⟩
  have first : writerPlace (past ++ instruction :: future) source < past.length := by
    rw [writerPlace, if_pos (List.mem_flatMap.mpr ⟨instruction, member, read⟩), List.findIdx_append,
      if_pos early]
    exact early
  refine Nat.lt_of_lt_of_le first ?_
  rw [writerPlace]
  split
  · rename_i isRead
    obtain ⟨reader, present, reads⟩ := List.mem_flatMap.mp isRead
    have late := ordered.notMem_past present reads writes
    have none : ¬ past.findIdx (·.result == some value) < past.length := by
      rw [List.findIdx_lt_length]
      rintro ⟨writer, present, result⟩
      exact late (mem_results_iff.mpr ⟨writer, present, by simpa using result⟩)
    rw [List.findIdx_append, if_neg none]
    exact Nat.le_add_left _ _
  · simp

namespace Method.SingleAssignment

theorem mem_iff {blocks : List Block} (arranged : blocks.Perm method.blocks) :
    instruction ∈ blocks.flatMap (·.instructions) ↔ instruction ∈ method.instructions :=
  (arranged.flatMap_right _).mem_iff

theorem acyclic (assigned : method.SingleAssignment) : Acyclic method := by
  obtain ⟨blocks, arranged, ordered⟩ := assigned.ordered
  refine ⟨writerPlace (blocks.flatMap (·.instructions)), fun value moves => ?_⟩
  rcases parent_eq_self_or method value with fixed | ⟨instruction, member, refines⟩
  · exact absurd fixed moves
  · obtain ⟨past, future, split⟩ := List.append_of_mem ((mem_iff arranged).mpr member)
    obtain ⟨read, writes⟩ := operands_of_refinement? refines
    rw [split] at ordered ⊢
    exact writerPlace_lt ordered read writes

theorem eq_writer (assigned : method.SingleAssignment) (read : value ∈ method.reads)
    {first second : Instruction} (firstMember : first ∈ method.instructions)
    (firstWrites : first.result = some value) (secondMember : second ∈ method.instructions)
    (secondWrites : second.result = some value) : first = second := by
  obtain ⟨blocks, arranged, ordered⟩ := assigned.ordered
  obtain ⟨reader, member, reads⟩ := List.mem_flatMap.mp read
  exact eq_of_count_eq_one (ordered.count_eq_one ((mem_iff arranged).mpr member) reads)
    ((mem_iff arranged).mpr firstMember) firstWrites ((mem_iff arranged).mpr secondMember)
    secondWrites

theorem defined (assigned : method.SingleAssignment) : Defined method.instructions := by
  obtain ⟨blocks, arranged, ordered⟩ := assigned.ordered
  intro reader member value read
  have written := ordered.defined reader ((mem_iff arranged).mpr member) value read
  obtain ⟨writer, present, writes⟩ := mem_results_iff.mp written
  exact mem_results_iff.mpr ⟨writer, (mem_iff arranged).mp present, writes⟩

theorem result_ne (assigned : method.SingleAssignment) (member : reader ∈ method.instructions)
    (read : value ∈ reader.operands) : reader.result ≠ some value := by
  obtain ⟨blocks, arranged, ordered⟩ := assigned.ordered
  have inside := (mem_iff arranged).mpr member
  obtain ⟨past, future, split⟩ := List.append_of_mem inside
  intro writes
  rw [split] at ordered inside
  exact ordered.notMem_past inside read writes (ordered past reader future rfl value read).1

/-- A value that is read is its own parent, unless its writer refines another value. -/
theorem parent_eq_self (assigned : method.SingleAssignment) (read : value ∈ method.reads)
    (member : writer ∈ method.instructions) (writes : writer.result = some value)
    (plain : writer.refinement? = none) : method.parent value = value := by
  rcases parent_eq_self_or method value with fixed | ⟨instruction, present, refines⟩
  · exact fixed
  · have same := assigned.eq_writer read member writes present (operands_of_refinement? refines).2
    rw [← same, plain] at refines
    cases refines

theorem parent_eq_source (assigned : method.SingleAssignment) (read : value ∈ method.reads)
    (member : writer ∈ method.instructions) {source : Var}
    (refines : writer.refinement? = some (value, source)) : method.parent value = source := by
  obtain ⟨refinement, present, known⟩ := exists_refinement_parent member refines
  have same := assigned.eq_writer read member (operands_of_refinement? refines).2 present
    (operands_of_refinement? known).2
  rw [same, known] at refines
  exact (Prod.mk.inj (Option.some.inj refines)).2

section Copy

variable {copy : Method} (valid : method.defect? = none) (assigned : method.SingleAssignment)
  (types : copy.types = method.types)
  (same : ∀ pair, pair ∈ copy.refinements ↔ pair ∈ method.refinements)
include assigned same

/-- What is read has the same parent in bodies with the same refinements. -/
theorem parent_congr (read : value ∈ method.reads) : copy.parent value = method.parent value := by
  rcases parent_eq_self_or copy value with fixed | ⟨instruction, member, refines⟩
  · rcases parent_eq_self_or method value with still | ⟨instruction, member, refines⟩
    · rw [fixed, still]
    · have listed := (same _).mpr (List.mem_filterMap.mpr ⟨instruction, member, refines⟩)
      obtain ⟨other, present, known⟩ := List.mem_filterMap.mp listed
      obtain ⟨last, among, known⟩ := exists_refinement_parent present known
      rw [fixed] at known
      obtain ⟨itself, present, known⟩ := List.mem_filterMap.mp
        ((same _).mp (List.mem_filterMap.mpr ⟨last, among, known⟩))
      obtain ⟨reads, writes⟩ := operands_of_refinement? known
      exact absurd writes (assigned.result_ne present reads)
  · obtain ⟨other, present, known⟩ := List.mem_filterMap.mp
      ((same _).mp (List.mem_filterMap.mpr ⟨instruction, member, refines⟩))
    exact (assigned.parent_eq_source read present known).symm

include valid types

theorem root_congr (read : value ∈ method.reads) :
    (Usage.ofMethod copy).root value = (Usage.ofMethod method).root value := by
  have closed : ∀ value < copy.types.length, copy.parent value < copy.types.length := by
    intro value inside
    rcases parent_eq_self_or copy value with fixed | ⟨instruction, member, refines⟩
    · rwa [fixed]
    · obtain ⟨other, present, known⟩ := List.mem_filterMap.mp
        ((same _).mp (List.mem_filterMap.mpr ⟨instruction, member, refines⟩))
      rw [types]
      exact closed_of_valid valid other present _ (operands_of_refinement? known).1
  have reads : ∀ value, value ∈ method.reads → method.parent value ∈ method.reads := by
    intro value read
    rcases parent_eq_self_or method value with fixed | ⟨instruction, member, refines⟩
    · rwa [fixed]
    · exact List.mem_flatMap.mpr ⟨instruction, member, (operands_of_refinement? refines).1⟩
  rw [Usage.root_ofMethod copy value closed, root_eq valid, types,
    chase_congr (fun value read => assigned.parent_congr same read) reads _ read]

end Copy

end Method.SingleAssignment

end Outlining.Bytecode
