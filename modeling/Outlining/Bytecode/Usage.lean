import Outlining.Bytecode.Method

/-! How often each value of a body is read, counted by operand, and the value that it stands for
once refinements are followed back to the value that was refined. -/
namespace Outlining.Bytecode

namespace Method

def reads (method : Method) : List Var := method.instructions.flatMap (·.operands)

/-- The result and the source of every refinement, in the order of the body. -/
def refinements (method : Method) : List (Var × Var) :=
  method.instructions.filterMap (·.refinement?)

/-- The value that `value` refines, or `value` itself; the last refinement with that result
decides. -/
def parent (method : Method) (value : Var) : Var :=
  match method.refinements.reverse.find? (·.1 == value) with
  | some (_, source) => source
  | none => value

end Method

/-- Follows `parent` for at most the given number of steps, until a value is its own parent. -/
def chase (parent : Var → Var) : Nat → Var → Var
  | 0, value => value
  | steps + 1, value =>
    if parent value = value then value else chase parent steps (parent value)

theorem chase_congr {left right : Var → Var} {within : Var → Prop}
    (same : ∀ value, within value → left value = right value)
    (closed : ∀ value, within value → within (right value)) (steps : Nat) {value : Var}
    (inside : within value) : chase left steps value = chase right steps value := by
  induction steps generalizing value with
  | zero => rfl
  | succ steps inductionHypothesis =>
    simp only [chase, same value inside, inductionHypothesis (closed value inside)]

def tabulate {α : Type} (size : Nat) (result : Var → α) : Array α :=
  Array.ofFn fun (value : Fin size) => result value

theorem getD_tabulate {α : Type} (size : Nat) (result : Var → α) (value : Var) (missing : α) :
    (tabulate size result).getD value missing = if value < size then result value else missing := by
  by_cases inside : value < size
  · simp [tabulate, Array.getD, inside]
  · simp [tabulate, Array.getD, inside]

/-- The reads and the alias root of every value of a body. -/
structure Usage where
  counts : Array Nat
  roots : Array Var

namespace Usage

/-- As many steps as there are values reach the root of any chain without a cycle. -/
def ofMethod (method : Method) : Usage :=
  let size := method.types.length
  let reads := method.reads
  let parents := tabulate size method.parent
  { counts := tabulate size (reads.count ·)
    roots := tabulate size (chase (fun value => parents.getD value value) size) }

def reads (usage : Usage) (value : Var) : Nat := usage.counts.getD value 0

def root (usage : Usage) (value : Var) : Var := usage.roots.getD value value

def isRead (usage : Usage) (value : Var) : Bool := 0 < usage.reads value

theorem reads_ofMethod (method : Method) (value : Var) :
    (ofMethod method).reads value =
      if value < method.types.length then method.reads.count value else 0 :=
  getD_tabulate _ _ value 0

/-- Where refinements stay inside the table of values, roots are reached by following parents. -/
theorem root_ofMethod (method : Method) (value : Var)
    (closed : ∀ value < method.types.length, method.parent value < method.types.length) :
    (ofMethod method).root value =
      if value < method.types.length then chase method.parent method.types.length value
      else value := by
  rw [root, ofMethod, getD_tabulate]
  by_cases inside : value < method.types.length
  · simp only [inside, if_true]
    refine @chase_congr _ _ (· < method.types.length) (fun value inside => ?_) closed _ _ inside
    rw [getD_tabulate, if_pos inside]
  · rw [if_neg inside, if_neg inside]

end Usage

end Outlining.Bytecode
