import Outlining.Proofs.Bytecode.Swap
import Outlining.Proofs.Window.Renaming
import Outlining.Proofs.Window.Passing
import Outlining.Proofs.Window.Twin

/-! Where operands of sums and products are swapped, the same windows are found. What a window
passes may stand in another order then, unless the operand that stands first is decided by the value
produced last, or both operands stand for one value. -/
namespace Outlining.Window

open Outlining.Bytecode Outlining.Template

variable {scope : Scope} {temporary : Option Var} {instruction instruction' : Instruction}
  {arguments others : List Argument} {operands : List (Var × Nat)} {window other : Window}
  {op : BinaryOp} {numeric : Numeric}

/-! ## The order of what is passed -/

namespace Scope

theorem find?_perm (perm : others.Perm arguments) (distinct : (arguments.map (·.value)).Nodup)
    (value : Var) :
    others.find? (·.value == value) = arguments.find? (·.value == value) := by
  cases found : others.find? (·.value == value) with
  | none =>
    refine (List.find?_eq_none.mpr fun argument member => ?_).symm
    exact List.find?_eq_none.mp found argument (perm.mem_iff.mpr member)
  | some argument =>
    have member := perm.mem_iff.mp (List.mem_of_find?_eq_some found)
    have carries : argument.value = value := by simpa using List.find?_some found
    obtain ⟨known, first⟩ : ∃ known, arguments.find? (·.value == value) = some known :=
      Option.isSome_iff_exists.mp (List.find?_isSome.mpr ⟨argument, member, by simpa using carries⟩)
    have same : known.value = value := by simpa using List.find?_some first
    rw [first, List.inj_on_of_nodup_map distinct (List.mem_of_find?_eq_some first) member
      (same.trans carries.symm)]

/-- Whether operands fit does not depend on the order of the arguments so far. -/
theorem isSome_fit_perm (perm : others.Perm arguments)
    (distinct : (arguments.map (·.value)).Nodup) :
    (scope.fit temporary instruction others operands).isSome =
      (scope.fit temporary instruction arguments operands).isSome := by
  induction operands generalizing arguments others with
  | nil => rfl
  | cons entry operands inductionHypothesis =>
    obtain ⟨operand, place⟩ := entry
    simp only [fit, find?_perm perm distinct]
    split
    · exact inductionHypothesis perm distinct
    · split
      · split
        · exact inductionHypothesis perm distinct
        · rfl
      · rename_i missing
        split
        · exact inductionHypothesis (perm.append_right _)
            (nodup_concat distinct (by simpa using missing))
        · rfl

/-- The arguments after one more operand. -/
def pass (scope : Scope) (temporary : Option Var) (instruction : Instruction)
    (arguments : List Argument) (entry : Var × Nat) : List Argument :=
  let value := scope.usage.root entry.1
  if some value = temporary ∨ value ∈ arguments.map (·.value) then arguments
  else arguments ++ [⟨value, parameterType (scope.method.typeOf value) instruction entry.2⟩]

theorem Binds.eq_pass {entry : Var × Nat} {next : List Argument} {slot : Slot}
    (binds : scope.Binds temporary instruction arguments entry next slot) :
    next = scope.pass temporary instruction arguments entry := by
  cases binds with
  | temporary reads => exact (if_pos (.inl reads)).symm
  | @known _ argument _ found value =>
    have passed : scope.usage.root entry.1 ∈ arguments.map (·.value) :=
      List.mem_map.mpr ⟨argument, List.mem_of_getElem? found, value⟩
    exact (if_pos (.inr passed)).symm
  | fresh fed new => exact (if_neg (not_or.mpr ⟨fed, new⟩)).symm

theorem bind_eq_foldl : (scope.bind temporary instruction arguments operands).1 =
    operands.foldl (scope.pass temporary instruction) arguments := by
  induction operands generalizing arguments with
  | nil => rfl
  | cons entry operands inductionHypothesis =>
    obtain ⟨_, _, binds, step⟩ := scope.exists_binds temporary instruction arguments entry operands
    rw [step, List.foldl_cons, ← inductionHypothesis, binds.eq_pass]

theorem pass_perm (perm : others.Perm arguments) (entry : Var × Nat) :
    (scope.pass temporary instruction others entry).Perm
      (scope.pass temporary instruction arguments entry) := by
  simp only [pass, (perm.map (·.value)).mem_iff]
  split
  · exact perm
  · exact perm.append_right _

/-- In whatever order the arguments stood, the same ones are there after more operands. -/
theorem bind_perm (perm : others.Perm arguments) :
    (scope.bind temporary instruction others operands).1.Perm
      (scope.bind temporary instruction arguments operands).1 := by
  rw [bind_eq_foldl, bind_eq_foldl]
  induction operands generalizing arguments others with
  | nil => exact perm
  | cons entry operands inductionHypothesis => exact inductionHypothesis (pass_perm perm entry)

/-- Two operands of arithmetic pass the same arguments in either order. -/
theorem bind_swap (opcode : instruction.opcode = .arithmetic op numeric)
    (opcode' : instruction'.opcode = .arithmetic op numeric) (left right : Var) :
    (scope.bind temporary instruction' arguments [(right, 0), (left, 1)]).1.Perm
      (scope.bind temporary instruction arguments [(left, 0), (right, 1)]).1 := by
  simp only [bind_eq_foldl, List.foldl_cons, List.foldl_nil, pass, parameterType, opcode, opcode']
  -- the orders differ only where both values are new, and there each order passes both, or the one
  -- that they are
  by_cases leftKnown : some (scope.usage.root left) = temporary ∨
      scope.usage.root left ∈ arguments.map (·.value) <;>
    by_cases rightKnown : some (scope.usage.root right) = temporary ∨
      scope.usage.root right ∈ arguments.map (·.value)
  all_goals grind

/-- Whether arithmetic may pass a value next to the arguments so far. -/
def suits (scope : Scope) (temporary : Option Var) (numeric : Numeric)
    (arguments : List Argument) (value : Var) : Bool :=
  some value = temporary ||
    match arguments.find? (·.value == value) with
    | some known => known.type = numeric.descriptor
    | none => scope.supports (scope.method.typeOf value)

/-- A suitable value that is passed now suits later operands as well, and changes nothing for the
other values. -/
theorem suits_concat {value : Var} (new : arguments.find? (·.value == value) = none)
    (supported : scope.supports (scope.method.typeOf value) = true) :
    scope.suits temporary numeric (arguments ++ [⟨value, numeric.descriptor⟩]) =
      scope.suits temporary numeric arguments := by
  funext other
  simp only [suits, List.find?_append]
  by_cases same : value = other
  · subst same
    simp [new, supported]
  · simp [same]

theorem isSome_fit_arithmetic (opcode : instruction.opcode = .arithmetic op numeric) :
    (scope.fit temporary instruction arguments operands).isSome =
      operands.all fun entry => scope.suits temporary numeric arguments
        (scope.usage.root entry.1) := by
  induction operands generalizing arguments with
  | nil => rfl
  | cons entry operands inductionHypothesis =>
    obtain ⟨operand, place⟩ := entry
    have type : parameterType (scope.method.typeOf (scope.usage.root operand)) instruction place =
        numeric.descriptor := by rw [parameterType, opcode]
    rw [List.all_cons, fit]
    simp only [type]
    split
    · rename_i reads
      simp [inductionHypothesis, suits, reads]
    · rename_i fed
      split
      · rename_i known found
        split
        · rename_i typed
          simp [inductionHypothesis, suits, found, typed]
        · rename_i differs
          simp [suits, fed, found, differs]
      · rename_i missing
        split
        · rename_i supported
          rw [inductionHypothesis, suits_concat missing supported]
          simp [suits, missing, supported]
        · rename_i refused
          simp [suits, fed, missing, refused]

theorem isSome_fit_swap (opcode : instruction.opcode = .arithmetic op numeric)
    (opcode' : instruction'.opcode = .arithmetic op numeric) (left right : Var) :
    (scope.fit temporary instruction' arguments [(right, 0), (left, 1)]).isSome =
      (scope.fit temporary instruction arguments [(left, 0), (right, 1)]).isSome := by
  rw [isSome_fit_arithmetic opcode, isSome_fit_arithmetic opcode']
  simp [Bool.and_comm]

end Scope

/-! ## What a window takes -/

/-- Whether two windows differ at most in the order of what they pass. -/
structure Parallel (window other : Window) : Prop where
  taken : other.taken = window.taken
  operations : other.operations = window.operations
  temporary : other.temporary = window.temporary
  pending : other.pending = window.pending
  arguments : other.arguments.Perm window.arguments
  slots : other.slots.length = window.slots.length
  distinct : (window.arguments.map (·.value)).Nodup

theorem parallel_empty : Parallel empty empty :=
  ⟨rfl, rfl, rfl, rfl, .refl _, rfl, List.nodup_nil⟩

theorem operandsInOrder_arithmetic (window : Window) (scope : Scope) (left right : Var)
    (result : Option Var) (line : Option Nat) :
    window.operandsInOrder scope ⟨.arithmetic op numeric, [left, right], result, line⟩ =
        [left, right] ∨
      window.operandsInOrder scope ⟨.arithmetic op numeric, [left, right], result, line⟩ =
        [right, left] := by
  simp only [operandsInOrder]
  split
  · exact .inr rfl
  · exact .inl rfl

theorem fits_eq (window : Window) (scope : Scope) (instruction : Instruction) :
    window.fits scope instruction =
      ((scope.fit window.temporaryValue instruction window.arguments
          (window.operandsInOrder scope instruction).zipIdx).isSome &&
        decide (scope.registers (window.bound scope instruction).1 ≤
          scope.limits.maxRegisters)) := by
  unfold fits bound
  split
  · rename_i fitted fit
    rw [Scope.bind_fit fit, fit]
    rfl
  · rename_i fails
    rw [fails]
    rfl

theorem registers_perm (perm : others.Perm arguments) :
    scope.registers others = scope.registers arguments := by
  rw [Scope.registers_eq, Scope.registers_eq]
  exact ((perm.map _).map _).sum_eq

section Step

variable (parallel : Parallel window other) (swap : Swap instruction instruction')
include parallel

theorem Parallel.temporaryValue : other.temporaryValue = window.temporaryValue := by
  rw [Window.temporaryValue, Window.temporaryValue, parallel.temporary]

theorem Parallel.readsTemporary :
    other.readsTemporary scope = window.readsTemporary scope := by
  funext operand
  rw [Window.readsTemporary, Window.readsTemporary, parallel.temporaryValue]

theorem Parallel.operandsInOrder :
    other.operandsInOrder scope instruction = window.operandsInOrder scope instruction := by
  simp only [Window.operandsInOrder, parallel.readsTemporary]

include swap

theorem Parallel.temporaryReads :
    other.temporaryReads scope instruction' = window.temporaryReads scope instruction := by
  rw [Window.temporaryReads, Window.temporaryReads, parallel.readsTemporary,
    swap.operands.countP_eq]

theorem Parallel.overwrites :
    other.overwrites scope instruction' = window.overwrites scope instruction := by
  rw [Window.overwrites, Window.overwrites, parallel.temporaryReads swap, parallel.temporary,
    swap.result]

theorem Parallel.constructsPending :
    other.constructsPending scope instruction' = window.constructsPending scope instruction := by
  simp only [Window.constructsPending, parallel.pending]
  cases swap with
  | same => rfl
  | swapped => rfl

theorem Parallel.isSome_fit :
    (scope.fit other.temporaryValue instruction' other.arguments
        (other.operandsInOrder scope instruction').zipIdx).isSome =
      (scope.fit window.temporaryValue instruction window.arguments
        (window.operandsInOrder scope instruction).zipIdx).isSome := by
  rw [parallel.temporaryValue, Scope.isSome_fit_perm parallel.arguments parallel.distinct]
  cases swap with
  | same => rw [parallel.operandsInOrder]
  | swapped numeric left right result line symmetric =>
    rcases window.operandsInOrder_arithmetic scope left right result line with first | first <;>
      rcases other.operandsInOrder_arithmetic scope right left result line with second | second <;>
      rw [first, second]
    · exact Scope.isSome_fit_swap rfl rfl left right
    · rfl
    · rfl
    · exact Scope.isSome_fit_swap rfl rfl right left

theorem Parallel.perm_bound :
    (other.bound scope instruction').1.Perm (window.bound scope instruction).1 := by
  rw [bound, bound, parallel.temporaryValue]
  refine (Scope.bind_perm parallel.arguments).trans ?_
  cases swap with
  | same => rw [parallel.operandsInOrder]
  | swapped numeric left right result line symmetric =>
    rcases window.operandsInOrder_arithmetic scope left right result line with first | first <;>
      rcases other.operandsInOrder_arithmetic scope right left result line with second | second <;>
      rw [first, second]
    · exact Scope.bind_swap rfl rfl left right
    · exact .refl _
    · exact .refl _
    · exact Scope.bind_swap rfl rfl right left

theorem Parallel.fits :
    other.fits scope instruction' = window.fits scope instruction := by
  have registers : scope.registers (other.bound scope instruction').1 =
      scope.registers (window.bound scope instruction).1 :=
    registers_perm (parallel.perm_bound swap)
  rw [fits_eq, fits_eq, parallel.isSome_fit swap, registers]

theorem Parallel.admits :
    other.admits scope instruction' = window.admits scope instruction := by
  simp only [Window.admits, parallel.overwrites swap, parallel.constructsPending swap, swap.role,
    swap.opcode, parallel.fits swap, callMoves, parallel.pending]

theorem Parallel.temporary_take :
    (other.take scope instruction').temporary = (window.take scope instruction).temporary := by
  simp only [Window.take, swap.role]
  split
  · exact parallel.temporary
  · unfold takeRefinement
    rw [swap.refinement?, parallel.readsTemporary]
    split
    · split
      · rw [parallel.temporary]
      · exact parallel.temporary
    · exact parallel.temporary
  · unfold takeOperation takeResult
    simp only [swap.opcode, swap.result, parallel.temporaryReads swap, parallel.temporary]
    split <;> rfl

/-- Windows that differ in order only still do so after they have taken two instructions that
differ in order only. -/
theorem Parallel.take :
    Parallel (window.take scope instruction) (other.take scope instruction') where
  taken := by simp only [Window.take, parallel.taken]
  operations := by
    simp only [Window.take, swap.role]
    split <;> simp [parallel.operations]
  temporary := parallel.temporary_take swap
  pending := by
    rw [pending_take, pending_take, swap.opcode, swap.result, parallel.pending, parallel.taken]
  arguments := by
    simp only [Window.take, swap.role]
    split
    · exact parallel.arguments
    · simpa using parallel.arguments
    · simpa using parallel.perm_bound swap
  slots := by
    simp only [Window.take, swap.role]
    split
    · exact parallel.slots
    · simpa using parallel.slots
    · simp [length_bound, parallel.slots, swap.operands.length_eq]
  distinct := by
    simp only [Window.take]
    split
    · exact parallel.distinct
    · simpa using parallel.distinct
    · rw [arguments_takeOperation]
      exact Scope.nodup_bind parallel.distinct

end Step

variable {ahead twins : List Instruction}

theorem Parallel.grow (parallel : Parallel window other) (swaps : ahead.Forall₂ Swap twins) :
    Option.Rel (fun grown copy => copy.2 = grown.2 ∧ Parallel grown.1 copy.1)
      (Window.grow scope window ahead) (Window.grow scope other twins) := by
  have ended {window other : Window} (parallel : Parallel window other) :
      Option.Rel (fun grown copy => copy.2 = grown.2 ∧ Parallel grown.1 copy.1)
        window.ended other.ended := by
    unfold Window.ended
    rw [parallel.taken]
    split
    · exact .none
    · exact .some ⟨rfl, parallel⟩
  induction swaps generalizing window other with
  | nil => exact ended parallel
  | @cons instruction twin ahead twins swap rest inductionHypothesis =>
    have next : Parallel (window.take scope instruction) (other.take scope twin) :=
      parallel.take swap
    simp only [Window.grow, swap.isTransparent, parallel.taken, parallel.admits swap,
      next.operations]
    split
    · exact .none
    · split
      · split
        · exact .some ⟨rfl, next⟩
        · exact inductionHypothesis next
      · exact ended parallel

/-! ## Where the order is settled -/

/-- The window after it has taken some instructions. -/
def takeAll (window : Window) (scope : Scope) (taken : List Instruction) : Window :=
  taken.foldl (·.take scope ·) window

theorem takeAll_concat (window : Window) (scope : Scope) (taken : List Instruction)
    (instruction : Instruction) :
    window.takeAll scope (taken ++ [instruction]) =
      (window.takeAll scope taken).take scope instruction :=
  List.foldl_concat ..

theorem Grown.eq_takeAll (grown : Grown scope ahead window) :
    window = empty.takeAll scope ahead := by
  induction grown with
  | start => rfl
  | literal _ _ role inductionHypothesis =>
    rw [takeAll_concat, ← inductionHypothesis]
    exact (take_literal _ scope role).symm
  | refinement _ _ role inductionHypothesis =>
    rw [takeAll_concat, ← inductionHypothesis]
    exact (take_refinement _ scope role).symm
  | operation _ operates _ inductionHypothesis =>
    rw [takeAll_concat, ← inductionHypothesis]
    exact (take_operation _ scope operates).symm

/-- Whether an instruction reads the value that a window produced last, or reads one value only. -/
def Decides (window : Window) (scope : Scope) (instruction : Instruction) : Prop :=
  (∃ operand ∈ instruction.operands, window.readsTemporary scope operand = true) ∨
    ∀ left ∈ instruction.operands, ∀ right ∈ instruction.operands,
      scope.usage.root left = scope.usage.root right

/-- Where the order of the operands is decided, they stand for the same values in order. -/
theorem Decides.operandsInOrder (decides : window.Decides scope instruction)
    (swap : Swap instruction instruction') :
    (window.operandsInOrder scope instruction').map scope.usage.root =
      (window.operandsInOrder scope instruction).map scope.usage.root := by
  cases swap with
  | same => rfl
  | @swapped op numeric left right result line symmetric =>
    have commutes : op.isCommutative = true := by rcases symmetric with rfl | rfl <;> rfl
    have stands {operand : Var} (reads : window.readsTemporary scope operand = true) :
        some (scope.usage.root operand) = window.temporaryValue := beq_iff_eq.mp reads
    simp only [Window.operandsInOrder, commutes, Bool.true_and]
    cases leftReads : window.readsTemporary scope left <;>
      cases rightReads : window.readsTemporary scope right
    case true.true =>
      have same := Option.some.inj ((stands leftReads).trans (stands rightReads).symm)
      simp [same]
    case false.false =>
      rcases decides with ⟨operand, read, reads⟩ | same
      · simp only [List.mem_cons, List.not_mem_nil, or_false] at read
        rcases read with rfl | rfl <;> simp_all
      · simp [same left (by simp) right (by simp)]
    all_goals rfl

theorem Decides.take (decides : window.Decides scope instruction)
    (swap : Swap instruction instruction') :
    window.take scope instruction' = window.take scope instruction := by
  have bound : scope.bind window.temporaryValue instruction' window.arguments
        (window.operandsInOrder scope instruction').zipIdx =
      scope.bind window.temporaryValue instruction window.arguments
        (window.operandsInOrder scope instruction).zipIdx := by
    refine Scope.Agrees.bind ⟨rfl, rfl⟩ (fun type slot => ?_) ?_
    · simp only [parameterType, swap.opcode]
    · rw [← List.zipIdx_map, ← List.zipIdx_map, decides.operandsInOrder swap]
  simp only [Window.take, swap.role, takeRefinement, swap.refinement?, takeOperation, bound,
    temporaryReads, swap.operands.countP_eq, takeResult, swap.opcode, swap.result]

/-- Where the order is decided at each swap, a window is the same after either instructions. -/
theorem takeAll_eq_of_decides (swaps : ahead.Forall₂ Swap twins)
    (decides : ∀ (place : Nat) (instruction twin : Instruction), ahead[place]? = some instruction →
      twins[place]? = some twin → twin ≠ instruction →
      (window.takeAll scope (ahead.take place)).Decides scope instruction) :
    window.takeAll scope twins = window.takeAll scope ahead := by
  induction swaps generalizing window with
  | nil => rfl
  | @cons instruction twin ahead twins swap rest inductionHypothesis =>
    have first : window.take scope twin = window.take scope instruction := by
      by_cases same : twin = instruction
      · rw [same]
      · exact (decides 0 instruction twin rfl rfl same).take swap
    rw [takeAll, takeAll, List.foldl_cons, List.foldl_cons, first]
    exact inductionHypothesis fun place later other here there differs =>
      decides (place + 1) later other here there differs

/-! ## What a scan finds -/

theorem trim_swaps (swaps : ahead.Forall₂ Swap twins) :
    (trim ahead).Forall₂ Swap (trim twins) := by
  have within {ahead twins : List Instruction} (swaps : ahead.Forall₂ Swap twins) :
      (ahead.dropWhile (·.isTransparent)).Forall₂ Swap (twins.dropWhile (·.isTransparent)) := by
    induction swaps with
    | nil => exact .nil
    | cons swap rest inductionHypothesis =>
      rw [List.dropWhile_cons, List.dropWhile_cons, swap.isTransparent]
      split
      · exact inductionHypothesis
      · exact .cons swap rest
  exact List.rel_reverse (within (List.rel_reverse swaps))

theorem operations_swaps (swaps : ahead.Forall₂ Swap twins) :
    (twins.filter (·.isOperation)).filterMap Operation.ofInstruction? =
      (ahead.filter (·.isOperation)).filterMap Operation.ofInstruction? := by
  induction swaps with
  | nil => rfl
  | cons swap rest inductionHypothesis =>
    rw [List.filter_cons, List.filter_cons, swap.isOperation]
    split
    · rw [List.filterMap_cons, List.filterMap_cons, swap.operation, inductionHypothesis]
    · exact inductionHypothesis

/-- Whether two candidates differ at most in the order of what they pass, and in the slots. -/
structure Candidate.Parallel (candidate other : Candidate) : Prop where
  block : other.block = candidate.block
  start : other.start = candidate.start
  stop : other.stop = candidate.stop
  operations : other.operations = candidate.operations
  work : other.template.operations = candidate.template.operations
  registers : other.registers = candidate.registers
  arguments : other.arguments.Perm candidate.arguments
  result : other.result = candidate.result
  returnType : other.template.returnType = candidate.template.returnType

/-- Whether two windows found break the same assertion, or are candidates that differ at most in the
order of what they pass, and not even in that if the first one is settled. -/
inductive Coincides (settled : Candidate → Prop) : Found → Found → Prop
  | broken (assertion : Assertion) : Coincides settled (.error assertion) (.error assertion)
  | found {candidate other : Candidate} (parallel : candidate.Parallel other)
      (exact : settled candidate → other = candidate) :
      Coincides settled (.ok candidate) (.ok other)

variable {settled : Candidate → Prop} {label : Label} {start : Nat}

theorem Parallel.candidate (parallel : Parallel window other) (swaps : ahead.Forall₂ Swap twins)
    (exact : ∀ candidate : Candidate, candidate.block = label → candidate.start = start →
      candidate.stop = start + (trim ahead).length → settled candidate → other = window) :
    Coincides settled (Window.candidate scope label start window ahead)
      (Window.candidate scope label start other twins) := by
  have operations := operations_swaps (trim_swaps swaps)
  have length := (trim_swaps swaps).length_eq
  have registers : scope.registers other.arguments = scope.registers window.arguments :=
    registers_perm parallel.arguments
  have covers : (other.template (trim twins)).coversOperands =
      (window.template (trim ahead)).coversOperands := by
    simp only [coversOperands, arity, Window.template, operations, parallel.slots]
  unfold Window.candidate
  simp only [registers, covers]
  split
  · exact .broken _
  · split
    · exact .broken _
    · refine .found ⟨rfl, rfl, ?_, parallel.operations, operations, rfl, ?_,
        parallel.temporaryValue, ?_⟩ fun known => ?_
      · simp only [length]
      · exact parallel.arguments.map _
      · simp only [Window.template, parallel.temporary]
      · obtain rfl := exact _ rfl rfl rfl known
        simp only [Window.template, operations, length]

theorem Parallel.close (parallel : Parallel window other) (swaps : ahead.Forall₂ Swap twins)
    {last : Nat} (exact : ∀ candidate : Candidate, candidate.block = label →
      candidate.start = start →
      candidate.stop = start + (trim (ahead.take (last + 1))).length → settled candidate →
        other = window) :
    Option.Rel (Coincides settled) (Window.close scope label start ahead window last).1
        (Window.close scope label start twins other last).1 ∧
      (Window.close scope label start twins other last).2 =
        (Window.close scope label start ahead window last).2 := by
  unfold Window.close
  rw [parallel.pending, parallel.operations]
  split
  · exact ⟨.none, rfl⟩
  · split
    · exact ⟨.none, rfl⟩
    · exact ⟨.some (parallel.candidate (List.forall₂_take _ swaps) exact), rfl⟩

/-- Whether the order of operands is decided wherever a window of a block takes an instruction that
is not the one in a copy of the block. -/
def Settled (scope : Scope) (instructions twins : List Instruction) (candidate : Candidate) :
    Prop :=
  ∀ (place : Nat) (instruction twin : Instruction),
    candidate.start ≤ place → place < candidate.stop →
    instructions[place]? = some instruction → twins[place]? = some twin → twin ≠ instruction →
    (empty.takeAll scope ((instructions.take place).drop candidate.start)).Decides scope instruction

theorem mem_trailing_of_le {place : Nat} (found : ahead[place]? = some instruction)
    (beyond : (trim ahead).length ≤ place) : instruction ∈ trailing ahead := by
  rw [← trim_append_trailing ahead, List.getElem?_append_right beyond] at found
  exact List.mem_of_getElem? found

/-- Over the instructions of a settled window and over their copies, one window grows. -/
theorem takeAll_eq_of_settled {instructions copies rest others : List Instruction}
    (swaps : ahead.Forall₂ Swap twins) (here : instructions.drop start = ahead ++ rest)
    (there : copies.drop start = twins ++ others) {candidate : Candidate}
    (starts : candidate.start = start) (stops : candidate.stop = start + (trim ahead).length)
    (settled : Settled scope instructions copies candidate) :
    empty.takeAll scope twins = empty.takeAll scope ahead := by
  refine takeAll_eq_of_decides swaps fun place instruction twin found foundTwin differs => ?_
  have inside : place < ahead.length := (List.getElem?_eq_some_iff.mp found).1
  have insideTwin : place < twins.length := (List.getElem?_eq_some_iff.mp foundTwin).1
  -- what is swapped is not transparent, so it stands before the instructions trimmed off
  have within : place < (trim ahead).length := by
    by_contra beyond
    have transparent := transparent_of_mem_trailing
      (mem_trailing_of_le found (Nat.not_lt.mp beyond))
    have swap : Swap ahead[place] twins[place] := List.Forall₂.get swaps inside insideTwin
    rw [List.getElem?_eq_getElem inside, Option.some.injEq] at found
    rw [List.getElem?_eq_getElem insideTwin, Option.some.injEq] at foundTwin
    rw [found, foundTwin] at swap
    exact differs (swap.eq_of_isTransparent transparent)
  have decides := settled (start + place) instruction twin (by omega) (by omega)
    (by rw [← List.getElem?_drop, here, List.getElem?_append_left inside, found])
    (by rw [← List.getElem?_drop, there, List.getElem?_append_left insideTwin, foundTwin]) differs
  rwa [starts, List.drop_take, here, Nat.add_sub_cancel_left,
    List.take_append_of_le_length (Nat.le_of_lt inside)] at decides

/-- Windows that grow over instructions and their copies are one if they are settled. -/
theorem eq_of_settled {instructions copies : List Instruction} {last : Nat} {candidate : Candidate}
    (swaps : ahead.Forall₂ Swap twins) (here : instructions.drop start = ahead)
    (there : copies.drop start = twins) (grew : grow scope empty ahead = some (window, last))
    (grewTwin : grow scope empty twins = some (other, last)) (starts : candidate.start = start)
    (stops : candidate.stop = start + (trim (ahead.take (last + 1))).length)
    (settled : Settled scope instructions copies candidate) : other = window := by
  obtain ⟨taken, rest, split, grown, count⟩ := Grown.of_grow .start grew
  obtain ⟨takenTwins, restTwins, splitTwins, grownTwins, countTwins⟩ :=
    Grown.of_grow .start grewTwin
  simp only [List.nil_append, List.length_nil, Nat.zero_add] at grown count grownTwins countTwins
  have first : ahead.take (last + 1) = taken := by rw [split, count, List.take_left]
  have second : twins.take (last + 1) = takenTwins := by
    rw [splitTwins, countTwins, List.take_left]
  have pairs : taken.Forall₂ Swap takenTwins := by
    rw [← first, ← second]
    exact List.forall₂_take _ swaps
  rw [grown.eq_takeAll, grownTwins.eq_takeAll]
  exact takeAll_eq_of_settled pairs (here.trans split) (there.trans splitTwins) starts
    (by rw [stops, first]) settled

theorem forall₂_toList {α β : Type} {relation : α → β → Prop} {left : Option α} {right : Option β}
    (related : Option.Rel relation left right) : left.toList.Forall₂ relation right.toList := by
  cases related with
  | none => exact .nil
  | some head => exact .cons head .nil

/-- In the instructions ahead and in their copies the same windows are found. -/
theorem coincides_scanAhead {instructions copies : List Instruction} (skip : Nat)
    (asks : ∀ candidate : Candidate, candidate.block = label → settled candidate →
      Settled scope instructions copies candidate)
    (swaps : ahead.Forall₂ Swap twins) (here : instructions.drop start = ahead)
    (there : copies.drop start = twins) :
    (scanAhead scope label start skip ahead).Forall₂
      (Coincides settled) (scanAhead scope label start skip twins) := by
  induction swaps generalizing start skip with
  | nil => cases skip <;> exact .nil
  | @cons instruction twin ahead twins swap rest inductionHypothesis =>
    have later (skip : Nat) : (scanAhead scope label (start + 1) skip ahead).Forall₂
        (Coincides settled) (scanAhead scope label (start + 1) skip twins) :=
      inductionHypothesis skip
        (by rw [← List.drop_drop, here, List.drop_one, List.tail_cons])
        (by rw [← List.drop_drop, there, List.drop_one, List.tail_cons])
    cases skip with
    | succ skip => exact later skip
    | zero =>
      have pairs : (instruction :: ahead).Forall₂ Swap (twin :: twins) := .cons swap rest
      have grown : Option.Rel _ (grow scope empty (instruction :: ahead))
          (grow scope empty (twin :: twins)) := parallel_empty.grow pairs
      rw [scanAhead, scanAhead]
      generalize first : grow scope empty (instruction :: ahead) = result,
        second : grow scope empty (twin :: twins) = copy at grown
      cases grown with
      | none => exact later 0
      | @some result copy related =>
        obtain ⟨window, last⟩ := result
        obtain ⟨other, lastTwin⟩ := copy
        obtain ⟨same, parallel⟩ := related
        dsimp only at same parallel
        subst same
        obtain ⟨founds, skips⟩ := @Parallel.close scope _ _ _ _ settled label start parallel pairs
          _ fun candidate stands starts stops known =>
            eq_of_settled pairs here there first second starts stops (asks candidate stands known)
        dsimp only
        rw [skips]
        exact List.rel_append (forall₂_toList founds) (later _)

variable {method twin : Method} {limits : Limits}

/-- Where operands of sums and products are swapped, the scope of the method is as it was. -/
theorem renames_swaps (swaps : method.Swaps twin) (limits : Limits) :
    (Scope.ofMethod method limits).Renames id (.ofMethod twin limits) where
  injective := Function.injective_id
  limits := rfl
  types := fun value => by simp only [Scope.ofMethod, Method.typeOf, swaps.types, id]
  reads := fun value => by simp only [Scope.ofMethod, swaps.usage, id]
  roots := fun value => by simp only [Scope.ofMethod, swaps.usage, id]

theorem scanBlock_swaps (swaps : method.Swaps twin) (limits : Limits) (block : Block) :
    scanBlock (.ofMethod twin limits) block = scanBlock (.ofMethod method limits) block := by
  have renamed := (renames_swaps swaps limits).scanBlock block
  have same : block.renamed id = block := by
    simp [Block.renamed, Instruction.renamed]
  have names (found : Found) : Except.map (·.renamed id) found = found := by
    cases found with
    | error assertion => rfl
    | ok candidate => simp [Except.map, Candidate.renamed]
  rwa [same, List.map_congr_left fun found _ => names found, List.map_id'] at renamed

/-- Whether the order of operands is decided wherever a window of a method takes an instruction that
is not the one in a copy of the method. -/
def SettledIn (method twin : Method) (limits : Limits) (candidate : Candidate) : Prop :=
  ∀ block copy, method.blocks[candidate.block]? = some block →
    twin.blocks[candidate.block]? = some copy →
    Settled (.ofMethod method limits) block.instructions copy.instructions candidate

/-- Operand order does not matter where the value produced last is involved: where the operands of
some sums and products are swapped, the same windows are found, which do the same operations, pass
the same values and return the same one; and a window is the same, its template and the order of
what it passes included, if each instruction that was swapped in it reads the value produced last
before, or reads one value only. -/
theorem scan_swapped (valid : method.defect? = none) (swaps : method.Swaps twin)
    (limits : Limits) :
    (method.scan limits).Forall₂ (Coincides (SettledIn method twin limits)) (twin.scan limits) := by
  have blocks : method.blocks.Forall₂ (fun block copy =>
      (scanBlock (.ofMethod method limits) block).Forall₂ (Coincides (SettledIn method twin limits))
        (scanBlock (.ofMethod twin limits) copy)) twin.blocks := by
    refine List.forall₂_iff_get.mpr ⟨swaps.blocks.length_eq, fun place inside insideTwin => ?_⟩
    have pair : Block.Swaps (method.blocks.get ⟨place, inside⟩)
        (twin.blocks.get ⟨place, insideTwin⟩) := swaps.blocks.get inside insideTwin
    have found : method.blocks[place]? = some (method.blocks.get ⟨place, inside⟩) :=
      List.getElem?_eq_getElem inside
    have foundTwin : twin.blocks[place]? = some (twin.blocks.get ⟨place, insideTwin⟩) :=
      List.getElem?_eq_getElem insideTwin
    have stands := ((Block.defect?_eq_none_iff ..).mp
      ((Method.defect?_eq_none_iff method).mp valid place _ found)).1
    rw [scanBlock_swaps swaps, scanBlock, scanBlock, pair.label]
    refine coincides_scanAhead 0 (fun candidate label settled => ?_) pair.instructions rfl rfl
    rw [stands] at label
    exact settled _ _ (label ▸ found) (label ▸ foundTwin)
  exact List.rel_flatMap blocks fun _ _ related => related

def timesSum : Method where
  index := 0
  reference := ⟨⟨"LA;"⟩, "m", ⟨.int, [.int, .int]⟩⟩
  types := [.number .int, .number .int, .number .int, .number .int]
  blocks := [⟨0, [⟨.argument 0, [], some 0, none⟩, ⟨.argument 1, [], some 1, none⟩,
    ⟨.arithmetic .add .int, [0, 1], some 2, none⟩, ⟨.arithmetic .mul .int, [0, 2], some 3, none⟩,
    ⟨.ret, [3], none, none⟩], [], []⟩]
  synthetic := false

/-- The same method, with the product the other way around. -/
def sumTimes : Method :=
  { timesSum with
    blocks := [⟨0, [⟨.argument 0, [], some 0, none⟩, ⟨.argument 1, [], some 1, none⟩,
      ⟨.arithmetic .add .int, [0, 1], some 2, none⟩,
      ⟨.arithmetic .mul .int, [2, 0], some 3, none⟩, ⟨.ret, [3], none, none⟩], [], []⟩] }

def sumAndProduct : Candidate where
  block := 0
  start := 2
  stop := 4
  template := ⟨[.arithmetic .add .int, .arithmetic .mul .int], [.int, .int],
    [.argument 0, .argument 1, .temporary, .argument 0], .int⟩
  arguments := [0, 1]
  registers := 2
  result := some 3
  operations := 2

theorem settled_sumAndProduct : SettledIn timesSum sumTimes ⟨1, 9, 5, false⟩ sumAndProduct := by
  intro block copy here there place instruction twin after before found foundTwin differs
  obtain rfl := Option.some.inj here
  obtain rfl := Option.some.inj there
  have among : place = 2 ∨ place = 3 := by
    simp only [sumAndProduct] at after before
    omega
  rcases among with rfl | rfl
  · exact absurd (Option.some.inj (foundTwin.symm.trans found)) differs
  · obtain rfl := Option.some.inj found
    exact .inl ⟨2, by decide, by decide +kernel⟩

theorem scan_sumTimes : timesSum.scan ⟨1, 9, 5, false⟩ = [.ok sumAndProduct] ∧
    sumTimes.scan ⟨1, 9, 5, false⟩ = [.ok sumAndProduct] := by
  have swaps : timesSum.Swaps sumTimes :=
    ⟨rfl, rfl, rfl, rfl, .cons ⟨rfl, rfl, rfl, .cons (.same _) (.cons (.same _) (.cons (.same _)
      (.cons (.swapped .int 0 2 _ _ (.inr rfl)) (.cons (.same _) .nil))))⟩ .nil⟩
  have once : timesSum.scan ⟨1, 9, 5, false⟩ = [.ok sumAndProduct] := by decide +kernel
  have coincide := scan_swapped (by decide) swaps ⟨1, 9, 5, false⟩
  rw [once] at coincide
  obtain ⟨found, rest, first, others, same⟩ := List.forall₂_cons_left_iff.mp coincide
  obtain rfl := List.forall₂_nil_left_iff.mp others
  cases first with
  | found parallel exact =>
    rw [exact settled_sumAndProduct] at same
    exact ⟨once, same⟩

end Outlining.Window
