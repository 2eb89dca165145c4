import Mathlib.Data.List.Dedup
import Outlining.Proofs.Bytecode.Arrangement

namespace Outlining.Bytecode

variable {body past future : List Instruction} {instruction : Instruction} {value : Var}
  {method : Method}

/-- The values that some instructions read and do not write. -/
def unwritten (body : List Instruction) : List Var :=
  ((body.flatMap (·.operands)).filter (· ∉ results body)).dedup

/-- A literal for a value. -/
def filler (value : Var) : Instruction := ⟨.literal .null, [], some value, none⟩

/-- Some instructions after literals for all values that they read and do not write. -/
def completed (body : List Instruction) : List Instruction :=
  (unwritten body).map filler ++ body

/-- Whether values that are read are written at most once, and not by their readers or later. -/
structure Forward (body : List Instruction) : Prop where
  once : ∀ instruction ∈ body, ∀ operand ∈ instruction.operands,
    (results body).count operand ≤ 1
  apart : ∀ instruction ∈ body, ∀ operand ∈ instruction.operands,
    instruction.result ≠ some operand
  later : body.Pairwise fun reader writer =>
    ∀ operand ∈ reader.operands, writer.result ≠ some operand

theorem mem_unwritten_iff : value ∈ unwritten body ↔
    value ∈ body.flatMap (·.operands) ∧ value ∉ results body := by
  simp [unwritten]

theorem results_completed (body : List Instruction) :
    results (completed body) = unwritten body ++ results body := by
  have fillers : results ((unwritten body).map filler) = unwritten body := by
    rw [results, List.filterMap_map]
    exact List.filterMap_some
  rw [completed, results_append, fillers]

theorem count_completed (read : value ∈ body.flatMap (·.operands))
    (once : (results body).count value ≤ 1) : (results (completed body)).count value = 1 := by
  rw [results_completed, List.count_append]
  by_cases written : value ∈ results body
  · have none : (unwritten body).count value = 0 :=
      List.count_eq_zero.mpr fun listed => (mem_unwritten_iff.mp listed).2 written
    have some := List.count_pos_iff.mpr written
    omega
  · have listed := mem_unwritten_iff.mpr ⟨read, written⟩
    rw [List.count_eq_zero.mpr written, Nat.add_zero]
    exact List.count_eq_one_of_mem (List.nodup_dedup _) listed

theorem mem_completed_iff : instruction ∈ completed body ↔
    (∃ value ∈ unwritten body, instruction = filler value) ∨ instruction ∈ body := by
  simp [completed, eq_comm]

/-- An instruction of a completed body that reads anything stands in the body. -/
private theorem exists_past (split : completed body = past ++ instruction :: future)
    (read : value ∈ instruction.operands) : ∃ more, body = more ++ instruction :: future := by
  rw [completed, List.append_eq_append_iff] at split
  rcases split with ⟨more, _, rest⟩ | ⟨more, fillers, rest⟩
  · exact ⟨more, rest⟩
  · cases more with
    | nil => exact ⟨[], rest.symm⟩
    | cons first more =>
      obtain ⟨rfl, _⟩ := List.cons.inj rest
      have listed : instruction ∈ (unwritten body).map filler := by simp [fillers]
      obtain ⟨other, _, rfl⟩ := List.mem_map.mp listed
      cases read

theorem Forward.ordered_completed (forward : Forward body) : Ordered (completed body) := by
  intro past instruction future split operand read
  obtain ⟨more, whole⟩ := exists_past split read
  have member : instruction ∈ body := by simp [whole]
  have later := forward.later
  rw [whole, List.pairwise_append, List.pairwise_cons] at later
  have late : operand ∉ results (instruction :: future) := by
    intro written
    obtain ⟨writer, present, writes⟩ := mem_results_iff.mp written
    rcases List.mem_cons.mp present with rfl | present
    · exact forward.apart writer member operand read writes
    · exact later.2.1.1 writer present operand read writes
  have counted := count_completed (List.mem_flatMap.mpr ⟨instruction, member, read⟩)
    (forward.once instruction member operand read)
  refine ⟨?_, counted⟩
  have written := List.count_pos_iff.mp (Nat.lt_of_lt_of_eq Nat.one_pos counted.symm)
  rw [split, results_append] at written
  exact (List.mem_append.mp written).resolve_right late

/-- The method of one block that has some instructions over the values of a method, completed. -/
def Method.completion (method : Method) (body : List Instruction) : Method :=
  { method with blocks := [⟨0, completed body, [], []⟩] }

@[simp] theorem Method.instructions_completion (method : Method) (body : List Instruction) :
    (method.completion body).instructions = completed body := by
  simp [Method.completion, Method.instructions]

theorem Method.defect?_completion
    (sound : ∀ instruction ∈ body, instruction.defect? method.types.length = none) :
    (method.completion body).defect? = none := by
  have named : ∀ value ∈ unwritten body, value < method.types.length := by
    intro value listed
    obtain ⟨reader, member, read⟩ := List.mem_flatMap.mp (mem_unwritten_iff.mp listed).1
    exact ((Instruction.defect?_eq_none_iff ..).mp (sound reader member)).1 value
      (List.mem_append_left _ read)
  rw [Method.defect?_eq_none_iff]
  intro place block found
  obtain ⟨rfl, rfl⟩ : place = 0 ∧ block = ⟨0, completed body, [], []⟩ := by
    cases place with
    | zero => exact ⟨rfl, (Option.some.inj found).symm⟩
    | succ place => cases found
  refine (Block.defect?_eq_none_iff ..).mpr ⟨rfl, by simp [Block.targets], ?_⟩
  intro instruction member
  rcases mem_completed_iff.mp member with ⟨value, listed, rfl⟩ | member
  · rw [Instruction.defect?_eq_none_iff]
    refine ⟨fun other present => ?_, nofun⟩
    obtain rfl : other = value := by simpa [filler, Instruction.values] using present
    exact named other listed
  · exact sound instruction member

private theorem bare_completed {special : Opcode → Prop}
    (bare : ∀ instruction ∈ body, special instruction.opcode → instruction.operands = []) :
    ∀ instruction ∈ completed body, special instruction.opcode → instruction.operands = [] := by
  intro instruction member opcode
  rcases mem_completed_iff.mp member with ⟨value, _, rfl⟩ | member
  · rfl
  · exact bare instruction member opcode

/-- Instructions that write what they read before they read it, if at all, can be completed. -/
theorem Forward.arranged (forward : Forward body)
    (sound : ∀ instruction ∈ body, instruction.defect? method.types.length = none)
    (literals : ∀ instruction ∈ body, ∀ value, instruction.opcode = .literal value →
      instruction.operands = [])
    (allocations : ∀ instruction ∈ body, ∀ cls, instruction.opcode = .allocate cls →
      instruction.operands = []) :
    Arranged (method.completion body) (completed body) where
  valid := Method.defect?_completion sound
  assigned := by
    refine ⟨⟨_, .refl _, ?_⟩, ?_, ?_⟩
    · simpa [Method.completion] using forward.ordered_completed
    · rw [Method.instructions_completion]
      intro instruction member value
      exact @bare_completed _ (· = .literal value)
        (fun other present => literals other present value) instruction member
    · rw [Method.instructions_completion]
      intro instruction member cls
      exact @bare_completed _ (· = .allocate cls)
        (fun other present => allocations other present cls) instruction member
  perm := by rw [Method.instructions_completion]
  ordered := forward.ordered_completed

end Outlining.Bytecode
