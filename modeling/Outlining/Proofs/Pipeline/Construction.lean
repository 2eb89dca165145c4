import Outlining.Proofs.Pipeline.Faultless
import Outlining.Proofs.Window.Twin

/-! A window that is taken out of a body never separates an instance from the call of its
constructor. While a window grows it is in one of two states: an instance waits for its constructor,
or none does. What the window may take in each state decides how its operations can follow one
another. -/
namespace Outlining.Window

open Outlining.Bytecode

variable {usage : Usage} {scope : Scope} {operations before after taken : List Instruction}
  {allocation call instruction : Instruction} {waits : Option Var} {value other : Var}
  {window : Window}

/-- Whether an instruction makes the instance `value`. -/
def Makes (instruction : Instruction) (value : Var) : Prop :=
  (∃ cls, instruction.opcode = .allocate cls) ∧ instruction.result = some value

def CallsConstructor (instruction : Instruction) : Prop :=
  ∃ kind target relocatable, instruction.opcode = .call kind target relocatable ∧
    target.isConstructor = true

/-- Whether an instruction calls a constructor on the instance `value`, under any of its names. -/
def Constructs (usage : Usage) (instruction : Instruction) (value : Var) : Prop :=
  ∃ kind target relocatable, instruction.opcode = .call kind target relocatable ∧
    target.isConstructor = true ∧ kind.hasReceiver = true ∧
    ∃ receiver arguments, instruction.operands = receiver :: arguments ∧
      usage.root receiver = value

/-- How operations follow one another in a window, and the instance that waits after them: one
that is read waits for its constructor, and nothing else is done before the constructor is
called. -/
inductive Consecutive (usage : Usage) : List Instruction → Option Var → Prop where
  | start : Consecutive usage [] none
  | plain {operations : List Instruction} {operation : Instruction}
      (consecutive : Consecutive usage operations none) (calls : ¬ CallsConstructor operation)
      (unread : ∀ value, Makes operation value → usage.isRead value = false) :
      Consecutive usage (operations ++ [operation]) none
  | allocate {operations : List Instruction} {operation : Instruction} {value : Var}
      (consecutive : Consecutive usage operations none) (makes : Makes operation value)
      (read : usage.isRead value = true) :
      Consecutive usage (operations ++ [operation]) (some value)
  | construct {operations : List Instruction} {operation : Instruction} {value : Var}
      (consecutive : Consecutive usage operations (some value))
      (constructs : Constructs usage operation value) :
      Consecutive usage (operations ++ [operation]) none

theorem Makes.unique (makes : Makes instruction value) (again : Makes instruction other) :
    value = other :=
  Option.some.inj (makes.2.symm.trans again.2)

theorem Makes.not_callsConstructor (makes : Makes instruction value) :
    ¬ CallsConstructor instruction := by
  obtain ⟨⟨cls, allocates⟩, _⟩ := makes
  rintro ⟨kind, target, relocatable, opcode, _⟩
  simp [allocates] at opcode

theorem Makes.isOperation (makes : Makes instruction value) : instruction.isOperation = true := by
  obtain ⟨⟨cls, opcode⟩, writes⟩ := makes
  have role := Instruction.role_eq_allocation_iff.mpr ⟨cls, value, opcode, writes⟩
  simp [Instruction.isOperation, role, Role.isOperation]

theorem Constructs.callsConstructor (constructs : Constructs usage instruction value) :
    CallsConstructor instruction := by
  obtain ⟨kind, target, relocatable, opcode, constructor, _⟩ := constructs
  exact ⟨kind, target, relocatable, opcode, constructor⟩

/-- An instance that is read still waits, or the next operation constructs it. -/
theorem Consecutive.constructed
    (consecutive : Consecutive usage (before ++ allocation :: after) waits)
    (makes : Makes allocation value) (read : usage.isRead value = true) :
    (after = [] ∧ waits = some value) ∨
      ∃ call rest, after = call :: rest ∧ Constructs usage call value := by
  generalize split : before ++ allocation :: after = operations at consecutive
  induction consecutive generalizing after with
  | start => simp at split
  | plain consecutive calls unread inductionHypothesis =>
    rcases concat_eq_append_cons split.symm with ⟨_, _, rfl⟩ | ⟨rest, rfl, earlier⟩
    · rw [unread value makes] at read
      cases read
    · rcases inductionHypothesis earlier.symm with ⟨_, remains⟩ | ⟨call, others, rfl, constructs⟩
      · cases remains
      · exact .inr ⟨call, _, rfl, constructs⟩
  | allocate consecutive made _ inductionHypothesis =>
    rcases concat_eq_append_cons split.symm with ⟨rfl, _, rfl⟩ | ⟨rest, rfl, earlier⟩
    · exact .inl ⟨rfl, congrArg some (made.unique makes)⟩
    · rcases inductionHypothesis earlier.symm with ⟨_, remains⟩ | ⟨call, others, rfl, constructs⟩
      · cases remains
      · exact .inr ⟨call, _, rfl, constructs⟩
  | construct consecutive called inductionHypothesis =>
    rcases concat_eq_append_cons split.symm with ⟨_, _, rfl⟩ | ⟨rest, rfl, earlier⟩
    · exact absurd called.callsConstructor makes.not_callsConstructor
    · rcases inductionHypothesis earlier.symm with ⟨rfl, remains⟩ | ⟨call, others, rfl, constructs⟩
      · cases remains
        exact .inr ⟨_, [], rfl, called⟩
      · exact .inr ⟨call, _, rfl, constructs⟩

theorem Consecutive.waiting (consecutive : Consecutive usage operations (some value)) :
    ∃ earlier allocation, operations = earlier ++ [allocation] ∧ Makes allocation value ∧
      usage.isRead value = true := by
  cases consecutive with
  | allocate consecutive makes read => exact ⟨_, _, rfl, makes, read⟩

/-- A constructor is called on the instance that the operation before it makes. -/
theorem Consecutive.allocated (consecutive : Consecutive usage (before ++ call :: after) waits)
    (calls : CallsConstructor call) :
    ∃ earlier allocation value, before = earlier ++ [allocation] ∧ Makes allocation value ∧
      usage.isRead value = true ∧ Constructs usage call value := by
  generalize split : before ++ call :: after = operations at consecutive
  induction consecutive generalizing after with
  | start => simp at split
  | plain consecutive ordinary _ inductionHypothesis =>
    rcases concat_eq_append_cons split.symm with ⟨_, _, rfl⟩ | ⟨rest, _, earlier⟩
    · exact absurd calls ordinary
    · exact inductionHypothesis earlier.symm
  | allocate consecutive makes _ inductionHypothesis =>
    rcases concat_eq_append_cons split.symm with ⟨_, _, rfl⟩ | ⟨rest, _, earlier⟩
    · exact absurd calls makes.not_callsConstructor
    · exact inductionHypothesis earlier.symm
  | @construct operations operation value consecutive constructs inductionHypothesis =>
    rcases concat_eq_append_cons split.symm with ⟨_, rfl, rfl⟩ | ⟨rest, _, earlier⟩
    · obtain ⟨earlier, allocation, rfl, makes, read⟩ := consecutive.waiting
      exact ⟨earlier, allocation, value, rfl, makes, read, constructs⟩
    · exact inductionHypothesis earlier.symm

/-- While an instance waits, nothing is admitted but the call of its constructor. -/
theorem constructs_of_admits {made : Allocation} (pending : window.pending = some made)
    (admitted : window.admits scope instruction = true) :
    Constructs scope.usage instruction made.value := by
  have constructs := (admits_iff.mp admitted).constructs
  rw [constructsPending, pending] at constructs
  simp only [Bool.and_eq_true, beq_iff_eq, Option.map_eq_some_iff] at constructs
  obtain ⟨called, receiver, first, root⟩ := constructs
  obtain ⟨arguments, operands⟩ := List.head?_eq_some_iff.mp first
  obtain ⟨kind, target, relocatable, opcode, constructor⟩ :=
    Instruction.exists_call_of_constructor called
  have moves := (admits_iff.mp admitted).moves kind target relocatable opcode
  have receives : kind.hasReceiver = true := by
    simp only [callMoves, constructor, pending, Option.isSome_some, Bool.not_true, Bool.false_or,
      Bool.and_true, Bool.and_eq_true] at moves
    exact moves.2
  exact ⟨kind, target, relocatable, opcode, constructor, receives, receiver, arguments, operands,
    root⟩

theorem not_callsConstructor_of_admits (settled : window.pending = none)
    (admitted : window.admits scope instruction = true) : ¬ CallsConstructor instruction := by
  rintro ⟨kind, target, relocatable, opcode, constructor⟩
  have moves := (admits_iff.mp admitted).moves kind target relocatable opcode
  simp [callMoves, constructor, settled] at moves

/-- Taking an operation is one step of how the operations follow one another. -/
private theorem Consecutive.take
    (consecutive : Consecutive scope.usage operations (window.pending.map (·.value)))
    (admitted : window.admits scope instruction = true) :
    Consecutive scope.usage (operations ++ [instruction])
      ((window.take scope instruction).pending.map (·.value)) := by
  rw [pending_take]
  cases pending : window.pending with
  | some made =>
    rw [pending] at consecutive
    have constructs := constructs_of_admits pending admitted
    obtain ⟨kind, target, relocatable, opcode, constructor⟩ := constructs.callsConstructor
    simp only [opcode, constructor, if_true]
    exact .construct consecutive constructs
  | none =>
    rw [pending] at consecutive
    have ordinary := not_callsConstructor_of_admits pending admitted
    split
    · rename_i cls result opcode writes
      split
      · rename_i read
        exact .allocate consecutive ⟨⟨cls, opcode⟩, writes⟩ read
      · rename_i unread
        refine .plain consecutive ordinary fun value makes => ?_
        rw [makes.unique ⟨⟨cls, opcode⟩, writes⟩]
        simpa using unread
    · rename_i opcode
      rw [if_neg fun constructor => ordinary ⟨_, _, _, opcode, constructor⟩]
      refine .plain consecutive ordinary fun value makes => ?_
      obtain ⟨⟨cls, allocates⟩, _⟩ := makes
      simp [allocates] at opcode
    · rename_i others
      refine .plain consecutive ordinary fun value makes => ?_
      obtain ⟨⟨cls, allocates⟩, writes⟩ := makes
      exact absurd writes (others cls value allocates)

/-- The operations of a window follow one another so, and the window waits as they do. -/
theorem Grown.consecutive (grown : Grown scope taken window) :
    Consecutive scope.usage (taken.filter (·.isOperation)) (window.pending.map (·.value)) := by
  induction grown with
  | start => exact .start
  | literal _ _ role inductionHypothesis =>
    rw [filter_isOperation_append_literal role]
    exact inductionHypothesis
  | @refinement _ window instruction _ _ role inductionHypothesis =>
    have kept : (window.take scope instruction).pending = window.pending := by
      rw [pending_take, (Instruction.role_eq_refinement_iff.mp role).1]
    rw [filter_isOperation_append_refinement role, ← take_refinement _ _ role, kept]
    exact inductionHypothesis
  | operation _ operates admitted inductionHypothesis =>
    rw [filter_isOperation_append_operation operates, ← take_operation _ _ operates]
    exact inductionHypothesis.take admitted

end Outlining.Window

namespace Outlining.Pipeline

open Outlining.Bytecode Outlining.Window

variable {method : Method} {limits : Limits} {candidate : Candidate} {value : Var}

/-- Whether a part of a body keeps each instance together with the call of its constructor, with
nothing but transparent instructions between them. -/
structure Inseparable (method : Method) (window : List Instruction) : Prop where
  /-- An instance that the body reads is constructed by the next operation. -/
  constructed : ∀ before allocation after cls, window = before ++ allocation :: after →
    allocation.opcode = .allocate cls → ∃ value, allocation.result = some value ∧
      (value ∈ method.reads → ∃ between call rest, after = between ++ call :: rest ∧
        (∀ rider ∈ between, rider.isTransparent = true) ∧
        Constructs (.ofMethod method) call value)
  /-- A constructor is called on an instance that the operation before the call makes. -/
  allocated : ∀ before call after, window = before ++ call :: after → CallsConstructor call →
    ∃ earlier allocation between value, before = earlier ++ allocation :: between ∧
      (∀ rider ∈ between, rider.isTransparent = true) ∧ Makes allocation value ∧
      value ∈ method.reads ∧ Constructs (.ofMethod method) call value

theorem isRead_iff (known : value < method.types.length) :
    (Usage.ofMethod method).isRead value = true ↔ value ∈ method.reads := by
  rw [Usage.isRead, Usage.reads_ofMethod, if_pos known, decide_eq_true_iff, List.count_pos_iff]

/-- Whether a window has nothing but operations and what rides along. -/
def Supported (window : List Instruction) : Prop :=
  ∀ instruction ∈ window, instruction.isOperation = true ∨ instruction.isTransparent = true

theorem Supported.rides {window between : List Instruction} (supported : Supported window)
    (inside : between ⊆ window) (idle : ∀ rider ∈ between, ¬ rider.isOperation = true) :
    ∀ rider ∈ between, rider.isTransparent = true :=
  fun rider member => (supported rider (inside member)).resolve_left (idle rider member)

theorem Supported.makes {window : List Instruction} {allocation : Instruction} {cls : Descriptor}
    (supported : Supported window) (member : allocation ∈ window)
    (opcode : allocation.opcode = .allocate cls) : ∃ value, Makes allocation value := by
  rcases supported allocation member with operates | transparent
  · rcases Instruction.isOperation_cases operates with role | role | role
    · obtain ⟨_, _, _, _, _, computes, _⟩ := Instruction.role_eq_arithmetic_iff.mp role
      simp [computes] at opcode
    · obtain ⟨_, value, _, writes⟩ := Instruction.role_eq_allocation_iff.mp role
      exact ⟨value, ⟨cls, opcode⟩, writes⟩
    · obtain ⟨_, _, _, calls, _⟩ := Instruction.role_eq_call_iff.mp role
      simp [calls] at opcode
  · rcases Instruction.isTransparent_cases transparent with role | role
    · obtain ⟨_, literal⟩ := Instruction.role_eq_literal_iff.mp role
      simp [literal] at opcode
    · simp [(Instruction.role_eq_refinement_iff.mp role).1] at opcode

theorem Supported.isOperation {window : List Instruction} {call : Instruction}
    (supported : Supported window) (member : call ∈ window) (calls : CallsConstructor call) :
    call.isOperation = true := by
  obtain ⟨kind, target, relocatable, opcode, _⟩ := calls
  refine (supported call member).resolve_right ?_
  rw [Instruction.isTransparent_of_call opcode]
  exact Bool.false_ne_true

/-- Where the operations follow one another so, instances and their constructors stay together. -/
theorem Inseparable.of_consecutive {window : List Instruction} (valid : method.defect? = none)
    (inside : window ⊆ method.instructions) (supported : Supported window)
    (consecutive : Consecutive (.ofMethod method) (window.filter (·.isOperation)) none) :
    Inseparable method window where
  constructed := by
    rintro before allocation after cls rfl opcode
    have member : allocation ∈ before ++ allocation :: after := by simp
    obtain ⟨value, makes⟩ := supported.makes member opcode
    refine ⟨value, makes.2, fun read => ?_⟩
    have known := lt_of_result (defect?_of_mem valid (inside member)) makes.2
    rw [List.filter_append, List.filter_cons_of_pos makes.isOperation] at consecutive
    rcases consecutive.constructed makes ((isRead_iff known).mpr read) with
      ⟨_, waits⟩ | ⟨call, operations, next, constructs⟩
    · cases waits
    · obtain ⟨between, rest, rfl, idle, _⟩ := List.filter_eq_cons_iff.mp next
      refine ⟨between, call, rest, rfl, supported.rides ?_ idle, constructs⟩
      intro rider present
      simp [present]
  allocated := by
    rintro before call after rfl calls
    have operates := supported.isOperation (by simp) calls
    rw [List.filter_append, List.filter_cons_of_pos operates] at consecutive
    obtain ⟨operations, allocation, value, previous, makes, read, constructs⟩ :=
      consecutive.allocated calls
    obtain ⟨front, back, rfl, _, only⟩ := List.filter_eq_append_iff.mp previous
    obtain ⟨idle, between, rfl, first, _, none⟩ := List.filter_eq_cons_iff.mp only
    have member : allocation ∈ front ++ (idle ++ allocation :: between) ++ call :: after := by simp
    have known := lt_of_result (defect?_of_mem valid (inside member)) makes.2
    refine ⟨front ++ idle, allocation, between, value, by simp,
      supported.rides ?_ (List.filter_eq_nil_iff.mp none), makes, (isRead_iff known).mp read,
      constructs⟩
    intro rider present
    simp [present]

/-- The window of a candidate never separates an instance from the call of its constructor. -/
theorem instances_constructed_in_window (valid : method.defect? = none)
    (found : .ok candidate ∈ method.scan limits) :
    Inseparable method (windowOf method candidate) := by
  obtain ⟨block, present, _, before, taken, after, window, split, _, closed, covered⟩ :=
    windowOf_eq (labelled_of_valid valid) (mem_found_iff.mpr found)
  have consecutive := closed.grown.consecutive
  rw [closed.settled, ← filter_isOperation_trim] at consecutive
  rw [covered]
  exact .of_consecutive valid
    (fun _ member => mem_instructions_of_split present split (mem_of_mem_trim member))
    (fun _ member => closed.grown.operates_or_transparent (mem_of_mem_trim member)) consecutive

/-- A method that makes an instance, which a literal and a refinement part from its constructor. -/
def refinesInstance : Method where
  index := 0
  reference := ⟨⟨"LA;"⟩, "m", ⟨.void, [.int]⟩⟩
  types := [.number .int, .object ⟨"LB;"⟩ [], .number .int, .object ⟨"LB;"⟩ []]
  blocks := [⟨0, [⟨.argument 0, [], some 0, none⟩, ⟨.allocate ⟨"LB;"⟩, [], some 1, none⟩,
    ⟨.literal (.int 7), [], some 2, none⟩, ⟨.refine, [1], some 3, none⟩,
    ⟨.call .direct ⟨⟨"LB;"⟩, "<init>", ⟨.void, [.int]⟩⟩ true, [3, 0], none, none⟩,
    ⟨.ret, [], none, none⟩], [], []⟩]
  synthetic := false

theorem exists_instance_constructed_in_window :
    ∃ candidate, .ok candidate ∈ refinesInstance.scan eager.limits ∧
      (windowOf refinesInstance candidate).length = 4 ∧
      Inseparable refinesInstance (windowOf refinesInstance candidate) := by
  have known : ∃ candidate ∈ found eager.limits refinesInstance,
      (windowOf refinesInstance candidate).length = 4 := by decide +kernel
  obtain ⟨candidate, present, four⟩ := known
  have scanned := mem_found_iff.mp present
  exact ⟨candidate, scanned, four, instances_constructed_in_window (by decide) scanned⟩

end Outlining.Pipeline
