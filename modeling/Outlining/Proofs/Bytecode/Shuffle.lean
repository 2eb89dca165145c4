import Mathlib.Data.List.FinRange
import Mathlib.Data.List.Perm.Basic
import Outlining.Bytecode.Method

namespace Outlining.Bytecode

variable {α : Type} {left right : List Method} {function : Method → α}

/-- A method at another place. -/
def Method.moved (method : Method) (index : MethodIndex) : Method :=
  { method with index := index }

/-- A program in another order: at each place stands the method from the place that the order
gives for it. -/
def Program.rearranged (program : Program) (order : Equiv.Perm (Fin program.methods.length)) :
    Program :=
  ⟨List.ofFn fun place => program.methods[order place].moved place⟩

/-- Whether a function does not look at the place of a method. -/
def Placeless (function : Method → α) : Prop :=
  ∀ method index, function (method.moved index) = function method

/-- Whether two lists hold the same methods, in any order and at any places. -/
def Shuffled (left right : List Method) : Prop :=
  (left.map (·.moved 0)).Perm (right.map (·.moved 0))

theorem Shuffled.map (shuffled : Shuffled left right) (placeless : Placeless function) :
    (left.map function).Perm (right.map function) := by
  have mapped := List.Perm.map function shuffled
  simpa only [List.map_map, Function.comp_def, placeless _ 0] using mapped

theorem Shuffled.exists_source {method : Method} (shuffled : Shuffled left right)
    (member : method ∈ left) : ∃ source ∈ right, ∃ index, method = source.moved index := by
  have listed := (List.Perm.mem_iff shuffled).mp (List.mem_map_of_mem member)
  obtain ⟨source, present, same⟩ := List.mem_map.mp listed
  refine ⟨source, present, method.index, ?_⟩
  exact congrArg (·.moved method.index) same.symm

theorem Shuffled.length_eq (shuffled : Shuffled left right) : left.length = right.length := by
  simpa using List.Perm.length_eq shuffled

theorem Shuffled.flatMap {function : Method → List α} (shuffled : Shuffled left right)
    (placeless : Placeless function) : (left.flatMap function).Perm (right.flatMap function) := by
  rw [List.flatMap_def, List.flatMap_def]
  exact (shuffled.map placeless).flatten

theorem Shuffled.countP_eq {chosen : Method → Bool} (shuffled : Shuffled left right)
    (placeless : Placeless chosen) : left.countP chosen = right.countP chosen := by
  have mapped := (shuffled.map placeless).countP_eq id
  simpa only [List.countP_map, Function.id_comp] using mapped

theorem Shuffled.filter {chosen : Method → Bool} (shuffled : Shuffled left right)
    (placeless : Placeless chosen) : Shuffled (left.filter chosen) (right.filter chosen) := by
  have kept (methods : List Method) : (methods.map (·.moved 0)).filter chosen =
      (methods.filter chosen).map (·.moved 0) := by
    rw [List.filter_map]
    exact congrArg _ (List.filter_congr fun method _ => placeless method 0)
  have filtered := List.Perm.filter chosen shuffled
  rwa [kept, kept] at filtered

theorem Shuffled.foldl_eq {step : α → Method → α} (shuffled : Shuffled left right)
    (placeless : ∀ state, Placeless (step state))
    (commutes : ∀ state first second,
      step (step state first) second = step (step state second) first) (state : α) :
    left.foldl step state = right.foldl step state := by
  have placed (methods : List Method) :
      (methods.map (·.moved 0)).foldl step state = methods.foldl step state := by
    rw [List.foldl_map]
    simp only [placeless _ _ 0]
  have folded := List.Perm.foldl_eq' shuffled
    (fun first _ second _ state => commutes state first second) state
  rwa [placed, placed] at folded

theorem Program.shuffled_rearranged (program : Program)
    (order : Equiv.Perm (Fin program.methods.length)) :
    Shuffled (program.rearranged order).methods program.methods := by
  have permuted := order.ofFn_comp_perm fun place => program.methods[place].moved 0
  rw [Shuffled, rearranged, List.map_ofFn]
  refine permuted.trans (.of_eq ?_)
  apply List.ext_getElem
  · simp
  · simp

theorem Program.getElem?_rearranged (program : Program)
    (order : Equiv.Perm (Fin program.methods.length)) (place : Fin program.methods.length) :
    (program.rearranged order).methods[(place : Nat)]? =
      some (program.methods[order place].moved place) := by
  simp [rearranged]

end Outlining.Bytecode
