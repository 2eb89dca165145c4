import Mathlib.Data.List.Nodup
import Mathlib.Data.List.Sort
import Outlining.Census

namespace Outlining.Census

open Outlining.Bytecode

variable {census : Census} {template : Template} {method : MethodIndex}
  {noted : List (Template × MethodIndex)}

def recordAll (census : Census) (noted : List (Template × MethodIndex)) : Census :=
  noted.foldl (fun census note => census.record note.1 note.2) census

def methodsOf (noted : List (Template × MethodIndex)) (template : Template) : List MethodIndex :=
  (noted.filter (·.1 == template)).map (·.2)

theorem mem_methodsOf_iff : method ∈ methodsOf noted template ↔ (template, method) ∈ noted := by
  simp [methodsOf]

/-- One entry for each template noted, with its methods. -/
structure Accounts (census : Census) (noted : List (Template × MethodIndex)) : Prop where
  distinct : (census.entries.map Prod.fst).Nodup
  covers : ∀ template, template ∈ census.entries.map Prod.fst ↔ template ∈ noted.map Prod.fst
  methods : ∀ entry ∈ census.entries, ∀ method, method ∈ entry.2 ↔ (entry.1, method) ∈ noted

theorem accounts_empty : Accounts .empty [] := ⟨.nil, fun _ => Iff.rfl, by simp [empty]⟩

theorem map_fst_insert (template : Template) (method : MethodIndex)
    (entries : List (Template × List MethodIndex)) :
    (insert template method entries).map Prod.fst =
      if template ∈ entries.map Prod.fst then entries.map Prod.fst
      else entries.map Prod.fst ++ [template] := by
  induction entries with
  | nil => rfl
  | cons entry entries inductionHypothesis =>
    obtain ⟨known, methods⟩ := entry
    rw [insert]
    by_cases same : known = template
    · simp [same]
    · rw [if_neg same, List.map_cons, inductionHypothesis]
      by_cases listed : template ∈ entries.map Prod.fst
      · simp [listed]
      · simp [listed, Ne.symm same]

theorem mem_insert_cases {entry : Template × List MethodIndex}
    {entries : List (Template × List MethodIndex)}
    (distinct : (entries.map Prod.fst).Nodup) (member : entry ∈ insert template method entries) :
    (entry.1 ≠ template ∧ entry ∈ entries) ∨
      (entry.1 = template ∧ ∃ methods, entry.2 = method :: methods ∧
        ((template, methods) ∈ entries ∨ template ∉ entries.map Prod.fst ∧ methods = [])) := by
  induction entries with
  | nil =>
    obtain rfl := List.mem_singleton.mp member
    exact .inr ⟨rfl, [], rfl, .inr ⟨by simp, rfl⟩⟩
  | cons first entries inductionHypothesis =>
    obtain ⟨known, methods⟩ := first
    rw [List.map_cons, List.nodup_cons] at distinct
    rw [insert] at member
    by_cases same : known = template
    · subst same
      rw [if_pos rfl] at member
      rcases List.mem_cons.mp member with rfl | member
      · exact .inr ⟨rfl, methods, rfl, .inl List.mem_cons_self⟩
      · refine .inl ⟨?_, List.mem_cons_of_mem _ member⟩
        intro here
        have listed := List.mem_map_of_mem (f := Prod.fst) member
        exact distinct.1 (here ▸ listed)
    · rw [if_neg same] at member
      rcases List.mem_cons.mp member with rfl | member
      · exact .inl ⟨same, List.mem_cons_self⟩
      · rcases inductionHypothesis distinct.2 member with ⟨differs, old⟩ | ⟨here, rest⟩
        · exact .inl ⟨differs, List.mem_cons_of_mem _ old⟩
        · obtain ⟨others, split, known | ⟨absent, none⟩⟩ := rest
          · exact .inr ⟨here, others, split, .inl (List.mem_cons_of_mem _ known)⟩
          · exact .inr ⟨here, others, split, .inr ⟨by simp [Ne.symm same, absent], none⟩⟩

theorem Accounts.record (accounts : Accounts census noted) (template : Template)
    (method : MethodIndex) :
    Accounts (census.record template method) (noted ++ [(template, method)]) where
  distinct := by
    rw [Census.record, map_fst_insert]
    split
    · exact accounts.distinct
    · rename_i absent
      rw [List.nodup_append]
      refine ⟨accounts.distinct, List.nodup_singleton _, ?_⟩
      rintro other present _ last rfl
      obtain rfl := List.mem_singleton.mp last
      exact absent present
  covers := by
    intro other
    rw [Census.record, map_fst_insert, List.map_append, List.mem_append, ← accounts.covers]
    split
    · rename_i present
      constructor
      · exact .inl
      · rintro (old | last)
        · exact old
        · obtain rfl := List.mem_singleton.mp last
          exact present
    · exact List.mem_append
  methods := by
    intro entry member other
    rw [List.mem_append, List.mem_singleton, Prod.mk.injEq]
    rcases mem_insert_cases accounts.distinct member with ⟨differs, old⟩ | ⟨here, rest⟩
    · simp [accounts.methods entry old, differs]
    · obtain ⟨methods, split, known | ⟨absent, none⟩⟩ := rest
      · rw [split, List.mem_cons, accounts.methods _ known other, here]
        simp [or_comm]
      · have fresh : (template, other) ∉ noted := fun listed =>
          absent ((accounts.covers template).mpr (List.mem_map_of_mem listed))
        simp [split, none, here, fresh]

theorem Accounts.recordAll (accounts : Accounts census noted)
    (more : List (Template × MethodIndex)) :
    Accounts (census.recordAll more) (noted ++ more) := by
  induction more generalizing census noted with
  | nil => simpa [Census.recordAll] using accounts
  | cons note more inductionHypothesis =>
    have rest := inductionHypothesis (accounts.record note.1 note.2)
    rw [List.append_assoc] at rest
    exact rest

theorem nodup_eraseDups (indices : List MethodIndex) : indices.eraseDups.Nodup := by
  induction size : indices.length using Nat.strongRecOn generalizing indices with
  | ind size inductionHypothesis =>
    cases indices with
    | nil => simp
    | cons first rest =>
      rw [List.eraseDups_cons, List.nodup_cons]
      refine ⟨by simp, inductionHypothesis _ ?_ _ rfl⟩
      rw [← size, List.length_cons]
      exact Nat.lt_succ_of_le (List.length_filter_le ..)

theorem length_eraseDups_congr {left right : List MethodIndex}
    (same : ∀ method, method ∈ left ↔ method ∈ right) :
    left.eraseDups.length = right.eraseDups.length := by
  refine ((List.perm_ext_iff_of_nodup (nodup_eraseDups left) (nodup_eraseDups right)).mpr
    ?_).length_eq
  simpa using same

theorem nodup_select (census : Census) (threshold : Nat) : (census.select threshold).Nodup :=
  (List.mergeSort_perm _ _).nodup_iff.mpr (nodup_eraseDups _)

theorem Accounts.mem_select_iff (accounts : Accounts census noted) {threshold : Nat} :
    method ∈ census.select threshold ↔ ∃ template, (template, method) ∈ noted ∧
      threshold ≤ (methodsOf noted template).eraseDups.length := by
  have counted : ∀ entry ∈ census.entries,
      entry.2.eraseDups.length = (methodsOf noted entry.1).eraseDups.length := by
    intro entry member
    apply length_eraseDups_congr
    intro other
    rw [accounts.methods entry member, mem_methodsOf_iff]
  simp only [select, ascending, List.mem_mergeSort, List.mem_eraseDups, List.mem_flatMap]
  constructor
  · rintro ⟨entry, member, listed⟩
    split at listed
    · rename_i frequent
      rw [counted entry member] at frequent
      exact ⟨entry.1, (accounts.methods entry member method).mp listed, frequent⟩
    · cases listed
  · rintro ⟨template, listed, frequent⟩
    have present := (accounts.covers template).mpr (List.mem_map_of_mem listed)
    obtain ⟨entry, member, rfl⟩ := List.mem_map.mp present
    refine ⟨entry, member, ?_⟩
    rw [if_pos (by rwa [counted entry member])]
    exact (accounts.methods entry member method).mpr listed

/-- A census into which methods were noted accounts for them. -/
theorem accounts_recordAll (noted : List (Template × MethodIndex)) :
    Accounts (empty.recordAll noted) noted :=
  accounts_empty.recordAll noted

theorem Accounts.mem_methods_iff (accounts : Accounts census noted) :
    method ∈ census.methods template ↔ (template, method) ∈ noted := by
  unfold Census.methods
  split
  · rename_i methods found
    obtain rfl : _ = template := by simpa using List.find?_some found
    exact accounts.methods _ (List.mem_of_find?_eq_some found) method
  · rename_i missing
    refine iff_of_false List.not_mem_nil fun listed => ?_
    have present := (accounts.covers template).mpr (List.mem_map_of_mem listed)
    obtain ⟨entry, member, rfl⟩ := List.mem_map.mp present
    simpa using List.find?_eq_none.mp missing entry member

theorem pairwise_select (census : Census) (threshold : Nat) :
    (census.select threshold).Pairwise (· < ·) := by
  have sorted : (census.select threshold).Pairwise fun left right => decide (left ≤ right) = true :=
    List.pairwise_mergeSort (by simpa using fun _ _ _ => Nat.le_trans)
      (by simpa using Nat.le_total) _
  exact (sorted.and (census.nodup_select threshold)).imp fun both =>
    Nat.lt_of_le_of_ne (of_decide_eq_true both.1) both.2

section Reordered

variable {other : Census} {again : List (Template × MethodIndex)}
  (accounts : Accounts census noted) (others : Accounts other again)
  (same : ∀ note, note ∈ again ↔ note ∈ noted)
include accounts others same

/-- How often and in which order methods were noted does not show in the number of templates. -/
theorem Accounts.size_eq : other.size = census.size := by
  rw [size, size, ← List.length_map Prod.fst, ← List.length_map Prod.fst]
  refine ((List.perm_ext_iff_of_nodup others.distinct accounts.distinct).mpr ?_).length_eq
  intro template
  simp only [others.covers, accounts.covers, List.mem_map, same]

theorem Accounts.methodCount_eq (template : Template) :
    other.methodCount template = census.methodCount template := by
  apply length_eraseDups_congr
  intro method
  rw [others.mem_methods_iff, accounts.mem_methods_iff, same]

theorem Accounts.select_eq (threshold : Nat) :
    other.select threshold = census.select threshold := by
  refine (other.pairwise_select threshold).eq_of_mem_iff (census.pairwise_select threshold) ?_
  intro method
  have counts (template : Template) : (methodsOf again template).eraseDups.length =
      (methodsOf noted template).eraseDups.length := by
    apply length_eraseDups_congr
    intro method
    rw [mem_methodsOf_iff, mem_methodsOf_iff, same]
  simp only [others.mem_select_iff, accounts.mem_select_iff, same, counts]

end Reordered

end Outlining.Census
