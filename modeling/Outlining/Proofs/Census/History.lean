import Mathlib.Data.Finset.Card
import Mathlib.Data.Finset.Image
import Mathlib.Data.List.Permutation
import Outlining.Proofs.Census

/-! Between two clearings a census stands for a set of pairs of a template and a method. All that it
counts and selects is a matter of this set: neither the order nor the repetition of records shows.
-/
namespace Outlining.Census

open Outlining.Bytecode

variable {census : Census} {pairs : Finset (Template × MethodIndex)} {template : Template}
  {method : MethodIndex} {threshold : Nat}

/-- What is done to a census. -/
inductive Call where
  | record (template : Template) (method : MethodIndex)
  | clear
deriving DecidableEq

def Call.act (census : Census) : Call → Census
  | .record template method => census.record template method
  | .clear => .empty

/-- The pairs known after a call. -/
def Call.note (pairs : Finset (Template × MethodIndex)) : Call → Finset (Template × MethodIndex)
  | .record template method => pairs ∪ {(template, method)}
  | .clear => ∅

/-- The census that some calls leave. -/
def after (calls : List Call) : Census := calls.foldl Call.act .empty

/-- The pairs recorded since the last clearing. -/
def recent (calls : List Call) : Finset (Template × MethodIndex) := calls.foldl Call.note ∅

def methodsWith (pairs : Finset (Template × MethodIndex)) (template : Template) :
    Finset MethodIndex :=
  (pairs.filter (·.1 = template)).image Prod.snd

theorem mem_methodsWith_iff : method ∈ methodsWith pairs template ↔ (template, method) ∈ pairs := by
  simp [methodsWith]

/-- Whether a census accounts for a set of pairs, however they were recorded. -/
def StandsFor (census : Census) (pairs : Finset (Template × MethodIndex)) : Prop :=
  ∃ noted, census.Accounts noted ∧ noted.toFinset = pairs

theorem standsFor_empty : StandsFor .empty ∅ := ⟨[], accounts_empty, rfl⟩

theorem StandsFor.act (stands : StandsFor census pairs) (call : Call) :
    StandsFor (call.act census) (call.note pairs) := by
  cases call with
  | record template method =>
    obtain ⟨noted, accounts, same⟩ := stands
    refine ⟨noted ++ [(template, method)], accounts.record template method, ?_⟩
    rw [Call.note, ← same, List.toFinset_append]
    rfl
  | clear => exact standsFor_empty

theorem StandsFor.foldl (stands : StandsFor census pairs) (calls : List Call) :
    StandsFor (calls.foldl Call.act census) (calls.foldl Call.note pairs) := by
  induction calls generalizing census pairs with
  | nil => exact stands
  | cons call calls inductionHypothesis => exact inductionHypothesis (stands.act call)

/-- After any calls a census stands for the pairs recorded since the last clearing. -/
theorem standsFor_after (calls : List Call) : StandsFor (after calls) (recent calls) :=
  standsFor_empty.foldl calls

theorem length_eraseDups_eq_card {indices : List MethodIndex} {distinct : Finset MethodIndex}
    (same : ∀ method, method ∈ indices ↔ method ∈ distinct) :
    indices.eraseDups.length = distinct.card := by
  rw [← List.toFinset_card_of_nodup (nodup_eraseDups indices)]
  apply congrArg
  ext method
  simp [same]

/-- What a census answers, told by a set of pairs. -/
structure Tells (census : Census) (pairs : Finset (Template × MethodIndex)) : Prop where
  /-- A method is selected if it occurs with a template that occurs with enough methods. -/
  selects : ∀ threshold method, method ∈ census.select threshold ↔
    ∃ template, (template, method) ∈ pairs ∧ threshold ≤ (methodsWith pairs template).card
  ascends : ∀ threshold, (census.select threshold).Pairwise (· < ·)
  narrows : ∀ threshold, census.select (threshold + 1) ⊆ census.select threshold
  counts : ∀ template, census.methodCount template = (methodsWith pairs template).card
  size : census.size = (pairs.image Prod.fst).card

namespace StandsFor

variable (stands : StandsFor census pairs)
include stands

theorem mem_select_iff : method ∈ census.select threshold ↔
    ∃ template, (template, method) ∈ pairs ∧ threshold ≤ (methodsWith pairs template).card := by
  obtain ⟨noted, accounts, rfl⟩ := stands
  rw [accounts.mem_select_iff]
  apply exists_congr
  intro template
  have counted : (methodsOf noted template).eraseDups.length =
      (methodsWith noted.toFinset template).card := by
    apply length_eraseDups_eq_card
    intro method
    rw [mem_methodsOf_iff, mem_methodsWith_iff, List.mem_toFinset]
  rw [List.mem_toFinset, counted]

theorem methodCount_eq_card (template : Template) :
    census.methodCount template = (methodsWith pairs template).card := by
  obtain ⟨noted, accounts, rfl⟩ := stands
  apply length_eraseDups_eq_card
  intro method
  rw [accounts.mem_methods_iff, mem_methodsWith_iff, List.mem_toFinset]

theorem size_eq_card : census.size = (pairs.image Prod.fst).card := by
  obtain ⟨noted, accounts, rfl⟩ := stands
  rw [size, ← List.length_map Prod.fst, ← List.toFinset_card_of_nodup accounts.distinct]
  apply congrArg
  ext template
  rw [List.mem_toFinset, accounts.covers]
  simp

theorem tells : Tells census pairs where
  selects _ _ := stands.mem_select_iff
  ascends threshold := census.pairwise_select threshold
  narrows threshold method chosen := by
    obtain ⟨template, known, frequent⟩ := stands.mem_select_iff.mp chosen
    exact stands.mem_select_iff.mpr ⟨template, known, Nat.le_of_succ_le frequent⟩
  counts := stands.methodCount_eq_card
  size := stands.size_eq_card

end StandsFor

theorem Tells.same_answers {other : Census} (tells : Tells census pairs)
    (others : Tells other pairs) :
    (∀ threshold, other.select threshold = census.select threshold) ∧
      (∀ template, other.methodCount template = census.methodCount template) ∧
      other.size = census.size := by
  refine ⟨fun threshold => ?_, fun template => ?_, others.size.trans tells.size.symm⟩
  · apply (others.ascends threshold).eq_of_mem_iff (tells.ascends threshold)
    intro method
    exact (others.selects threshold method).trans (tells.selects threshold method).symm
  · exact (others.counts template).trans (tells.counts template).symm

/-- A census answers by the distinct pairs recorded since it was last cleared, and calls that leave
the same pairs cannot be told apart. -/
theorem tells_after (calls : List Call) :
    Tells (after calls) (recent calls) ∧
      ∀ others, recent others = recent calls →
        (∀ threshold, (after others).select threshold = (after calls).select threshold) ∧
        (∀ template, (after others).methodCount template = (after calls).methodCount template) ∧
        (after others).size = (after calls).size := by
  have tells := (standsFor_after calls).tells
  refine ⟨tells, fun others same => ?_⟩
  have again := (standsFor_after others).tells
  rw [same] at again
  exact tells.same_answers again

def making (cls : Descriptor) : Template := ⟨[.allocate cls], [], [], cls⟩

/-- A history with something that is forgotten and something that is repeated. -/
def repeated : List Call :=
  [.record (making ⟨"LA;"⟩) 7, .clear, .record (making ⟨"LA;"⟩) 2, .record (making ⟨"LB;"⟩) 0,
    .record (making ⟨"LA;"⟩) 1, .record (making ⟨"LA;"⟩) 2]

/-- The same pairs, each of them once and in another order. -/
def plain : List Call :=
  [.record (making ⟨"LB;"⟩) 0, .record (making ⟨"LA;"⟩) 1, .record (making ⟨"LA;"⟩) 2]

/-- Two methods share a template; the method that was forgotten does not count. -/
theorem tells_after_repeated : recent plain = recent repeated ∧
    (after plain).select 2 = (after repeated).select 2 ∧ (after repeated).select 2 = [1, 2] := by
  have same : recent plain = recent repeated := by decide
  exact ⟨same, ((tells_after repeated).2 plain same).1 2, by cbv⟩

end Outlining.Census
