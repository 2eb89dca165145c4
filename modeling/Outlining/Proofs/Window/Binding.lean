import Outlining.Proofs.Window.Growth
import Outlining.Template.Body

namespace Outlining.Window

open Outlining.Bytecode Outlining.Template

variable {scope : Scope} {temporary : Option Var} {instruction : Instruction}
  {arguments fitted : List Argument} {operands : List (Var × Nat)}

/-- The operands of an instruction, in an order in which it computes the same. -/
inductive Reordered (instruction : Instruction) : List Var → Prop where
  | same : Reordered instruction instruction.operands
  | swapped {op : BinaryOp} {numeric : Numeric} {left right : Var}
      (opcode : instruction.opcode = .arithmetic op numeric) (commutes : op.isCommutative = true)
      (operands : instruction.operands = [left, right]) : Reordered instruction [right, left]

theorem Reordered.mem_iff {order : List Var} (reordered : Reordered instruction order)
    (value : Var) : value ∈ order ↔ value ∈ instruction.operands := by
  cases reordered with
  | same => rfl
  | swapped _ _ operands => simp [operands, or_comm]

theorem Reordered.length_eq {order : List Var} (reordered : Reordered instruction order) :
    order.length = instruction.operands.length := by
  cases reordered with
  | same => rfl
  | swapped _ _ operands => simp [operands]

theorem reordered_operandsInOrder (window : Window) (scope : Scope) (instruction : Instruction) :
    Reordered instruction (window.operandsInOrder scope instruction) := by
  unfold operandsInOrder
  split
  · rename_i op numeric left right opcode operands
    split
    · rename_i swapped
      simp only [Bool.and_eq_true] at swapped
      exact .swapped opcode swapped.1.1 operands
    · rw [← operands]
      exact .same
  · exact .same

theorem resolve?_append {slot : Slot} {values : List Var} {value : Var} (more : List Var)
    (resolved : slot.resolve? values temporary = some value) :
    slot.resolve? (values ++ more) temporary = some value := by
  cases slot with
  | temporary => exact resolved
  | argument index =>
    simp only [Slot.resolve?] at resolved ⊢
    rw [List.getElem?_append_left (List.getElem?_eq_some_iff.mp resolved).1, resolved]

namespace Scope

theorem nodup_concat {argument : Argument} (distinct : (arguments.map (·.value)).Nodup)
    (new : argument.value ∉ arguments.map (·.value)) :
    ((arguments ++ [argument]).map (·.value)).Nodup := by
  rw [List.map_append, List.map_singleton]
  exact List.nodup_append.mpr ⟨distinct, by simp, by simpa using new⟩

/-- The argument that an operand asks for. -/
def asked (scope : Scope) (instruction : Instruction) (entry : Var × Nat) : Argument :=
  ⟨scope.usage.root entry.1,
    parameterType (scope.method.typeOf (scope.usage.root entry.1)) instruction entry.2⟩

/-- What one operand makes of the arguments, and the slot that it gets. -/
inductive Binds (scope : Scope) (temporary : Option Var) (instruction : Instruction)
    (arguments : List Argument) (entry : Var × Nat) : List Argument → Slot → Prop where
  | temporary (reads : some (scope.usage.root entry.1) = temporary) :
      Binds scope temporary instruction arguments entry arguments .temporary
  | known {index : Nat} {argument : Argument} (fed : some (scope.usage.root entry.1) ≠ temporary)
      (found : arguments[index]? = some argument) (value : argument.value = scope.usage.root entry.1)
      (first : arguments.find? (·.value == scope.usage.root entry.1) = some argument) :
      Binds scope temporary instruction arguments entry arguments (.argument index)
  | fresh (fed : some (scope.usage.root entry.1) ≠ temporary)
      (new : scope.usage.root entry.1 ∉ arguments.map (·.value)) :
      Binds scope temporary instruction arguments entry
        (arguments ++ [scope.asked instruction entry]) (.argument arguments.length)

/-- The first operand is bound, then the others next to what that made of the arguments. -/
theorem exists_binds (scope : Scope) (temporary : Option Var) (instruction : Instruction)
    (arguments : List Argument) (entry : Var × Nat) (operands : List (Var × Nat)) :
    ∃ next slot, scope.Binds temporary instruction arguments entry next slot ∧
      scope.bind temporary instruction arguments (entry :: operands) =
        ((scope.bind temporary instruction next operands).1,
          slot :: (scope.bind temporary instruction next operands).2) := by
  obtain ⟨operand, place⟩ := entry
  simp only [bind]
  split
  · rename_i reads
    exact ⟨_, _, .temporary reads, rfl⟩
  · rename_i fed
    split
    · rename_i index found
      obtain ⟨inside, value, least⟩ := List.findIdx?_eq_some_iff_getElem.mp found
      have first : arguments.find? (·.value == scope.usage.root operand) = some arguments[index] :=
        List.find?_eq_some_iff_getElem.mpr ⟨value, index, inside, rfl, by simpa using least⟩
      exact ⟨_, _, .known fed (List.getElem?_eq_getElem inside) (beq_iff_eq.mp value) first, rfl⟩
    · rename_i missing
      have new : scope.usage.root operand ∉ arguments.map (·.value) := by
        simpa using List.findIdx?_eq_none_iff.mp missing
      exact ⟨_, _, .fresh fed new, rfl⟩

namespace Binds

variable {entry : Var × Nat} {next : List Argument} {slot : Slot}
  (binds : scope.Binds temporary instruction arguments entry next slot)
include binds

theorem grows : ∃ fresh, next = arguments ++ fresh ∧ ∀ argument ∈ fresh,
    some argument.value ≠ temporary ∧ argument.value = scope.usage.root entry.1 := by
  cases binds with
  | temporary | known => exact ⟨[], (List.append_nil _).symm, by simp⟩
  | fresh fed => exact ⟨_, rfl, by simpa using ⟨fed, rfl⟩⟩

theorem resolve?_eq :
    slot.resolve? (next.map (·.value)) temporary = some (scope.usage.root entry.1) := by
  cases binds with
  | temporary reads => exact reads.symm
  | known _ found value => simp [Slot.resolve?, found, value]
  | fresh => simp [Slot.resolve?, asked]

theorem eq_temporary_iff : slot = .temporary ↔ temporary = some (scope.usage.root entry.1) := by
  cases binds with
  | temporary reads => simp [reads]
  | known fed | fresh fed => simpa using fed.symm

theorem eq_argument {index : Nat} (added : arguments.length ≤ index) (inside : index < next.length) :
    slot = .argument index := by
  cases binds with
  | temporary | known => omega
  | fresh =>
    rw [List.length_append, List.length_singleton] at inside
    rw [Nat.le_antisymm added (Nat.lt_succ_iff.mp inside)]

theorem nodup (distinct : (arguments.map (·.value)).Nodup) : (next.map (·.value)).Nodup := by
  cases binds with
  | temporary | known => exact distinct
  | fresh _ new => exact nodup_concat distinct new

/-- If the operands fit, an argument in the slot of the first of them is the one that it asks for. -/
theorem of_fit (fit : scope.fit temporary instruction arguments (entry :: operands) = some fitted) :
    scope.fit temporary instruction next operands = some fitted ∧
      ∀ index, slot = .argument index → next[index]? = some (scope.asked instruction entry) := by
  simp only [Scope.fit] at fit
  cases binds with
  | temporary reads =>
    rw [if_pos reads] at fit
    exact ⟨fit, by simp⟩
  | @known index argument fed found value first =>
    rw [if_neg fed] at fit
    simp only [first] at fit
    split at fit
    · rename_i typed
      have same : argument = scope.asked instruction entry := by
        rw [asked, ← typed, ← value]
      exact ⟨fit, by simp [found, same]⟩
    · cases fit
  | fresh fed new =>
    have missing : arguments.find? (·.value == scope.usage.root entry.1) = none := by
      simpa using new
    rw [if_neg fed] at fit
    simp only [missing] at fit
    split at fit
    · exact ⟨fit, by simp⟩
    · cases fit

end Binds

theorem bind_extends (scope : Scope) (temporary : Option Var) (instruction : Instruction)
    (arguments : List Argument) (operands : List (Var × Nat)) :
    ∃ fresh, (scope.bind temporary instruction arguments operands).1 = arguments ++ fresh ∧
      ∀ argument ∈ fresh, some argument.value ≠ temporary ∧
        ∃ entry ∈ operands, argument.value = scope.usage.root entry.1 := by
  induction operands generalizing arguments with
  | nil => exact ⟨[], by simp [bind], by simp⟩
  | cons entry operands inductionHypothesis =>
    obtain ⟨next, _, binds, step⟩ :=
      scope.exists_binds temporary instruction arguments entry operands
    obtain ⟨here, rfl, own⟩ := binds.grows
    obtain ⟨there, all, others⟩ := inductionHypothesis (arguments ++ here)
    refine ⟨here ++ there, by rw [step, all, List.append_assoc], ?_⟩
    intro argument member
    rcases List.mem_append.mp member with first | later
    · exact ⟨(own argument first).1, entry, List.mem_cons_self, (own argument first).2⟩
    · obtain ⟨fed, other, read, value⟩ := others argument later
      exact ⟨fed, other, List.mem_cons_of_mem _ read, value⟩

theorem length_bind (scope : Scope) (temporary : Option Var) (instruction : Instruction)
    (arguments : List Argument) (operands : List (Var × Nat)) :
    (scope.bind temporary instruction arguments operands).2.length = operands.length := by
  induction operands generalizing arguments with
  | nil => rfl
  | cons entry operands inductionHypothesis =>
    obtain ⟨next, _, _, step⟩ := scope.exists_binds temporary instruction arguments entry operands
    rw [step, List.length_cons, inductionHypothesis, List.length_cons]

theorem resolve_bind (scope : Scope) (temporary : Option Var) (instruction : Instruction)
    (arguments : List Argument) (operands : List (Var × Nat)) :
    (scope.bind temporary instruction arguments operands).2.map
        (·.resolve? ((scope.bind temporary instruction arguments operands).1.map (·.value)) temporary) =
      operands.map fun entry => some (scope.usage.root entry.1) := by
  induction operands generalizing arguments with
  | nil => rfl
  | cons entry operands inductionHypothesis =>
    obtain ⟨next, _, binds, step⟩ :=
      scope.exists_binds temporary instruction arguments entry operands
    obtain ⟨fresh, all, _⟩ := scope.bind_extends temporary instruction next operands
    rw [step]
    refine congrArg₂ List.cons ?_ (inductionHypothesis next)
    rw [all, List.map_append]
    exact resolve?_append _ binds.resolve?_eq

theorem argument_mem_bind {index : Nat} (operands : List (Var × Nat))
    (added : arguments.length ≤ index)
    (inside : index < (scope.bind temporary instruction arguments operands).1.length) :
    Slot.argument index ∈ (scope.bind temporary instruction arguments operands).2 := by
  induction operands generalizing arguments with
  | nil =>
    simp only [bind] at inside
    omega
  | cons entry operands inductionHypothesis =>
    obtain ⟨next, _, binds, step⟩ :=
      scope.exists_binds temporary instruction arguments entry operands
    rw [step] at inside ⊢
    rcases Nat.lt_or_ge index next.length with early | late
    · rw [binds.eq_argument added early]
      exact List.mem_cons_self
    · exact List.mem_cons_of_mem _ (inductionHypothesis late inside)

theorem bind_fit (fit : scope.fit temporary instruction arguments operands = some fitted) :
    (scope.bind temporary instruction arguments operands).1 = fitted := by
  induction operands generalizing arguments with
  | nil => simpa [Scope.fit, bind] using fit
  | cons entry operands inductionHypothesis =>
    obtain ⟨_, _, binds, step⟩ := scope.exists_binds temporary instruction arguments entry operands
    rw [step]
    exact inductionHypothesis (binds.of_fit fit).1

/-- An argument in the slot of an operand has the type that the operand asks for, also if it was
an argument before. -/
theorem typed_bind {place index : Nat}
    (fit : scope.fit temporary instruction arguments operands = some fitted)
    (slot : (scope.bind temporary instruction arguments operands).2[place]? =
      some (.argument index)) :
    ∃ entry argument, operands[place]? = some entry ∧ fitted[index]? = some argument ∧
      argument.value = scope.usage.root entry.1 ∧
      argument.type =
        parameterType (scope.method.typeOf argument.value) instruction entry.2 := by
  induction operands generalizing arguments place with
  | nil => simp [bind] at slot
  | cons entry operands inductionHypothesis =>
    obtain ⟨next, first, binds, step⟩ :=
      scope.exists_binds temporary instruction arguments entry operands
    obtain ⟨rest, typed⟩ := binds.of_fit fit
    rw [step] at slot
    cases place with
    | zero =>
      have found := typed index (by simpa using slot)
      obtain ⟨fresh, all, _⟩ := scope.bind_extends temporary instruction next operands
      rw [bind_fit rest] at all
      refine ⟨entry, scope.asked instruction entry, rfl, ?_, rfl, rfl⟩
      rw [all, List.getElem?_append_left (List.getElem?_eq_some_iff.mp found).1, found]
    | succ place => exact inductionHypothesis rest (by simpa using slot)

end Scope

end Outlining.Window
