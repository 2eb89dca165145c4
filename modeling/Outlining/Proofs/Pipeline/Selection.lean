import Outlining.Proofs.Census
import Outlining.Proofs.Pipeline.Survey

namespace Outlining

open Outlining.Bytecode Outlining.Window

namespace Pipeline

variable {options : Options} {program : Program} {method : Method} {template : Template}

/-- The methods that outlining may change. -/
def plainMethods (program : Program) : List Method := program.methods.filter (!·.synthetic)

def templatesIn (limits : Limits) (method : Method) : List Template :=
  (found limits method).map (·.template)

def methodCount (options : Options) (program : Program) (template : Template) : Nat :=
  (plainMethods program).countP fun method => (templatesIn options.limits method).contains template

/-- The methods with a template that occurs in enough methods. -/
def frequentMethods (options : Options) (program : Program) : List Method :=
  (plainMethods program).filter fun method =>
    (templatesIn options.limits method).any fun template =>
      options.methodThreshold ≤ methodCount options program template

/-- The number of windows with a template in these methods. -/
def siteCount (options : Options) (program : Program) (template : Template) : Nat :=
  ((frequentMethods options program).flatMap (templatesIn options.limits)).count template

/-- Whether a template has enough windows in the methods selected. -/
def IsWorthwhile (options : Options) (program : Program) (template : Template) : Prop :=
  0 < siteCount options program template ∧
    options.siteThreshold ≤ siteCount options program template

instance (options : Options) (program : Program) (template : Template) :
    Decidable (IsWorthwhile options program template) :=
  inferInstanceAs (Decidable (_ ∧ _))

theorem mem_plainMethods_iff :
    method ∈ plainMethods program ↔ method ∈ program.methods ∧ method.synthetic = false := by
  simp [plainMethods]

/-- The templates of the windows found, each with the method that it was found in. -/
def notesIn (options : Options) (program : Program) : List (Template × MethodIndex) :=
  (plainMethods program).flatMap fun method =>
    (templatesIn options.limits method).map fun template => (template, method.index)

theorem foldl_noted (limits : Limits) (methods : List Method) (census : Census) :
    methods.foldl (noted limits) census = census.recordAll (methods.flatMap fun method =>
      (templatesIn limits method).map fun template => (template, method.index)) := by
  induction methods generalizing census with
  | nil => rfl
  | cons method methods inductionHypothesis =>
    rw [List.foldl_cons, inductionHypothesis]
    simp [noted, templatesIn, Census.recordAll, List.foldl_append, List.foldl_map]

theorem accounts_censusOf (options : Options) (program : Program) :
    (censusOf options program).Accounts (notesIn options program) := by
  rw [censusOf, foldl_noted]
  exact Census.accounts_empty.recordAll _

/-- Where the methods of a program stand at their indices. -/
def Indexed (program : Program) : Prop :=
  ∀ (place : Nat) (method : Method), program.methods[place]? = some method → method.index = place

theorem indexed_of_valid (valid : program.complaint? = none) : Indexed program :=
  fun place method found =>
    ((Program.complaint?_eq_none_iff program).mp valid place method found).1

section Indexed

variable (indexed : Indexed program)
include indexed

theorem nodup_indices : (program.methods.map (·.index)).Nodup := by
  have same : program.methods.map (·.index) = List.range program.methods.length := by
    apply List.ext_getElem?
    intro place
    by_cases inside : place < program.methods.length
    · have found := List.getElem?_eq_getElem inside
      rw [List.getElem?_map, found, List.getElem?_range inside]
      exact congrArg some (indexed place _ found)
    · rw [List.getElem?_eq_none (by simpa using inside),
        List.getElem?_eq_none (by simpa using inside)]
  rw [same]
  exact List.nodup_range

theorem eq_of_index {left right : Method} (leftMember : left ∈ program.methods)
    (rightMember : right ∈ program.methods) (same : left.index = right.index) : left = right :=
  List.inj_on_of_nodup_map (nodup_indices indexed) leftMember rightMember same

theorem length_eraseDups_methodsOf (template : Template) :
    (Census.methodsOf (notesIn options program) template).eraseDups.length =
      methodCount options program template := by
  have listed : (((plainMethods program).filter fun method =>
      (templatesIn options.limits method).contains template).map (·.index)).Nodup :=
    ((List.filter_sublist.trans List.filter_sublist).map _).nodup (nodup_indices indexed)
  rw [methodCount, List.countP_eq_length_filter, ← List.length_map Method.index]
  refine ((List.perm_ext_iff_of_nodup (Census.nodup_eraseDups _) listed).mpr ?_).length_eq
  intro index
  rw [List.mem_eraseDups, Census.mem_methodsOf_iff]
  simp [notesIn, and_assoc]

/-- The first pass selects the methods with a frequent template. -/
theorem mem_selectionOf_iff {index : MethodIndex} : index ∈ selectionOf options program ↔
    ∃ method ∈ frequentMethods options program, method.index = index := by
  rw [selectionOf, (accounts_censusOf options program).mem_select_iff]
  simp only [length_eraseDups_methodsOf indexed]
  simp only [notesIn, frequentMethods, List.mem_flatMap, List.mem_map, List.mem_filter,
    List.any_eq_true, decide_eq_true_eq, Prod.mk.injEq]
  constructor
  · rintro ⟨template, ⟨method, plain, _, known, rfl, same⟩, frequent⟩
    exact ⟨method, ⟨plain, _, known, frequent⟩, same⟩
  · rintro ⟨method, ⟨plain, template, known, frequent⟩, same⟩
    exact ⟨template, ⟨method, plain, template, known, rfl, same⟩, frequent⟩

theorem isChosen_selectionOf_iff (member : method ∈ program.methods) :
    isChosen (selectionOf options program) method = true ↔
      method ∈ frequentMethods options program := by
  rw [isChosen, Bool.and_eq_true, Bool.not_eq_true', List.contains_iff_mem,
    mem_selectionOf_iff indexed]
  constructor
  · rintro ⟨_, other, frequent, same⟩
    have present := (mem_plainMethods_iff.mp (List.mem_filter.mp frequent).1).1
    exact eq_of_index indexed present member same ▸ frequent
  · intro frequent
    exact ⟨(mem_plainMethods_iff.mp (List.mem_filter.mp frequent).1).2, method, frequent, rfl⟩

theorem chosen_selectionOf :
    chosen (selectionOf options program) program = frequentMethods options program := by
  rw [chosen, frequentMethods, plainMethods, List.filter_filter]
  apply List.filter_congr
  intro method member
  rw [Bool.eq_iff_iff, isChosen_selectionOf_iff indexed member, frequentMethods, List.mem_filter,
    mem_plainMethods_iff]
  simp [member, and_comm]

/-- The sites recorded for a template are its windows in the methods selected. -/
theorem length_sitesOf_sitesIn (template : Template) :
    (sitesOf (sitesIn options program) template).length = siteCount options program template := by
  rw [sitesOf, List.length_map, ← List.countP_eq_length_filter, siteCount, sitesIn,
    chosen_selectionOf indexed, List.count]
  have same : (frequentMethods options program).flatMap (templatesIn options.limits) =
      ((frequentMethods options program).flatMap (entriesOf options.limits)).map Prod.fst := by
    rw [List.map_flatMap]
    apply List.flatMap_congr
    intro method _
    simp [templatesIn, entriesOf]
  rw [same, List.countP_map]
  rfl

/-- The second pass finds the templates that are worthwhile. -/
theorem mem_templatesOf_iff :
    template ∈ (templatesOf options program).map Prod.snd ↔
      IsWorthwhile options program template := by
  rw [templatesOf, (accounts_ledgerOf options program).mem_map_select_iff, IsWorthwhile,
    ← length_sitesOf_sitesIn indexed, List.length_pos_iff, ne_eq, sitesOf_eq_nil_iff, not_not]

end Indexed

theorem pairwise_templatesOf (options : Options) (program : Program) :
    ((templatesOf options program).map Prod.snd).Pairwise
      fun left right => compare left right = .lt := by
  rw [List.pairwise_map]
  exact (accounts_ledgerOf options program).pairwise_select options.siteThreshold

end Pipeline

end Outlining
