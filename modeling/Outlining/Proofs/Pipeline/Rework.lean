import Outlining.Proofs.Bytecode.Completion
import Outlining.Proofs.Pipeline.Reads
import Outlining.Proofs.Rewriting.Part

/-! Replacing windows in a body in order leaves a body that is in order once it is completed: a call
stands where its window stood, it reads what was written before the window or kept in front of the
call, and it writes at most what the window wrote last. -/
namespace Outlining

open Outlining.Bytecode Outlining.Rewriting Outlining.Template Outlining.Window

/-- A list of edits whose windows follow one another replaces what they cover. -/
theorem Rewriting.Spliced.covered {replaces : List Instruction → Edit → Prop} {place : Nat}
    {whole front original rewritten : List Instruction} {edits all : List Edit}
    (result : Spliced replaces place original edits rewritten)
    (split : whole = front ++ original) (placed : place = front.length) (listed : edits ⊆ all) :
    Spliced (fun window edit => replaces window edit ∧ edit ∈ all ∧
      window = Rewriting.windowOf edit 0 whole) place original edits rewritten := by
  induction result generalizing front with
  | done place => exact .done place
  | keep instruction rest inductionHypothesis =>
    refine .keep instruction (@inductionHypothesis (front ++ [instruction]) ?_ ?_ listed)
    · rw [split, List.append_assoc, List.singleton_append]
    · rw [placed, List.length_append, List.length_singleton]
  | @replace window original rewritten edit edits replaced stops rest inductionHypothesis =>
    refine .replace ⟨replaced, listed List.mem_cons_self, ?_⟩ stops
      (@inductionHypothesis (front ++ window) ?_ ?_ fun other member =>
        listed (List.mem_cons_of_mem _ member))
    · rw [Rewriting.windowOf, split, Nat.sub_zero, placed, List.drop_left, stops, placed,
        Nat.add_sub_cancel_left, List.take_left]
    · rw [split, List.append_assoc]
    · rw [stops, placed, List.length_append]

namespace Pipeline

variable {outlines : List Outline} {limits : Limits} {method : Method} {block : Block}
  {past original rewritten others copies : List Instruction} {instruction : Instruction}
  {hit : Outline × Candidate} {value : Var}

/-- Whether a window of a method is replaced by an edit. -/
def Located (outlines : List Outline) (limits : Limits) (method : Method)
    (window : List Instruction) (edit : Edit) : Prop :=
  ∃ hit ∈ hits outlines (found limits method),
    window = windowOf method hit.2 ∧ edit = editOf method hit

theorem exists_located (valid : method.defect? = none) (present : block ∈ method.blocks) :
    ∃ rewritten, Spliced (Located outlines limits method) 0 block.instructions
      ((hits outlines (foundIn limits method block)).map (editOf method)) rewritten := by
  obtain ⟨rewritten, spliced⟩ := exists_spliced outlines
    (cut_scanBlock (.ofMethod method limits) block)
    fun instruction member => List.mem_flatMap.mpr ⟨block, present, member⟩
  refine ⟨rewritten, (spliced.covered (List.nil_append _).symm rfl (fun _ => id)).imp ?_⟩
  rintro window edit ⟨_, member, covers⟩
  obtain ⟨hit, inside, rfl⟩ := List.mem_map.mp member
  obtain ⟨listed, known⟩ := mem_hits_iff.mp inside
  obtain ⟨listed, here⟩ := (mem_foundIn_iff valid present).mp listed
  refine ⟨hit, mem_hits_iff.mpr ⟨listed, known⟩, ?_, rfl⟩
  have there := (labelled_of_valid valid).getElem? present
  rw [covers]
  simp [Rewriting.windowOf, windowOf, editOf, here, there]

/-- Some instructions, and what they are with some windows of a method replaced by calls. -/
inductive Reworked (outlines : List Outline) (limits : Limits) (method : Method) :
    List Instruction → List Instruction → Prop where
  | done : Reworked outlines limits method [] []
  | keep {original rewritten : List Instruction} (instruction : Instruction)
      (rest : Reworked outlines limits method original rewritten) :
      Reworked outlines limits method (instruction :: original) (instruction :: rewritten)
  | replace {original rewritten : List Instruction} {hit : Outline × Candidate}
      (replaced : hit ∈ hits outlines (found limits method))
      (rest : Reworked outlines limits method original rewritten) :
      Reworked outlines limits method (windowOf method hit.2 ++ original)
        (kept (windowOf method hit.2) ++ (editOf method hit).call :: rewritten)

namespace Reworked

theorem of_spliced {place : Nat} {edits : List Edit}
    (spliced : Spliced (Located outlines limits method) place original edits rewritten) :
    Reworked outlines limits method original rewritten := by
  induction spliced with
  | done => exact .done
  | keep instruction rest inductionHypothesis => exact .keep instruction inductionHypothesis
  | replace replaced stops rest inductionHypothesis =>
    obtain ⟨hit, listed, rfl, rfl⟩ := replaced
    exact .replace listed inductionHypothesis

theorem append (first : Reworked outlines limits method original rewritten)
    (second : Reworked outlines limits method others copies) :
    Reworked outlines limits method (original ++ others) (rewritten ++ copies) := by
  induction first with
  | done => exact second
  | keep instruction rest inductionHypothesis => exact .keep instruction inductionHypothesis
  | replace replaced rest inductionHypothesis =>
    rw [List.append_assoc, List.append_assoc, List.cons_append]
    exact .replace replaced inductionHypothesis

theorem flatMap {α : Type} {list : List α} {before after : α → List Instruction}
    (each : ∀ item ∈ list, Reworked outlines limits method (before item) (after item)) :
    Reworked outlines limits method (list.flatMap before) (list.flatMap after) := by
  induction list with
  | nil => exact .done
  | cons item list inductionHypothesis =>
    rw [List.flatMap_cons, List.flatMap_cons]
    exact (each item List.mem_cons_self).append
      (inductionHypothesis fun other member => each other (List.mem_cons_of_mem _ member))

variable (reworked : Reworked outlines limits method original rewritten)
include reworked

theorem mem_or_of_mem (member : instruction ∈ original) : instruction ∈ rewritten ∨
    ∃ hit ∈ hits outlines (found limits method), instruction ∈ windowOf method hit.2 ∧
      windowOf method hit.2 ⊆ original ∧ (editOf method hit).call ∈ rewritten := by
  induction reworked with
  | done => cases member
  | keep other rest inductionHypothesis =>
    rcases List.mem_cons.mp member with rfl | member
    · exact .inl List.mem_cons_self
    · rcases inductionHypothesis member with kept | ⟨hit, replaced, inside, whole, called⟩
      · exact .inl (List.mem_cons_of_mem _ kept)
      · exact .inr ⟨hit, replaced, inside, fun other member =>
          List.mem_cons_of_mem _ (whole member), List.mem_cons_of_mem _ called⟩
  | @replace original rewritten hit replaced rest inductionHypothesis =>
    rcases List.mem_append.mp member with here | member
    · exact .inr ⟨hit, replaced, here, List.subset_append_left _ _, by simp⟩
    · rcases inductionHypothesis member with kept | ⟨hit, replaced, inside, whole, called⟩
      · exact .inl (by simp [kept])
      · exact .inr ⟨hit, replaced, inside, fun other member =>
          List.mem_append_right _ (whole member), by simp [called]⟩

/-- What is there afterwards was there before, or calls an outline in place of a window. -/
theorem mem_cases (member : instruction ∈ rewritten) : instruction ∈ original ∨
    ∃ hit ∈ hits outlines (found limits method), instruction = (editOf method hit).call ∧
      windowOf method hit.2 ⊆ original := by
  induction reworked with
  | done => cases member
  | keep other rest inductionHypothesis =>
    rcases List.mem_cons.mp member with rfl | member
    · exact .inl List.mem_cons_self
    · rcases inductionHypothesis member with there | ⟨hit, replaced, same, whole⟩
      · exact .inl (List.mem_cons_of_mem _ there)
      · exact .inr ⟨hit, replaced, same, fun other member =>
          List.mem_cons_of_mem _ (whole member)⟩
  | @replace original rewritten hit replaced rest inductionHypothesis =>
    simp only [List.mem_append, List.mem_cons] at member ⊢
    rcases member with kept | rfl | member
    · exact .inl (.inl (List.dropLast_subset _ (List.mem_filter.mp kept).1))
    · exact .inr ⟨hit, replaced, rfl, List.subset_append_left _ _⟩
    · rcases inductionHypothesis member with there | ⟨hit, replaced, same, whole⟩
      · exact .inl (.inr there)
      · exact .inr ⟨hit, replaced, same, fun other member =>
          List.mem_append_right _ (whole member)⟩

end Reworked

theorem lastResult_of_call (labelled : Labelled method)
    (replaced : hit ∈ hits outlines (found limits method))
    (writes : (editOf method hit).call.result = some value) :
    lastResult (operationsOf method hit.2) = some value := by
  obtain ⟨_, _, _, _, taken, _, window, _, _, closed, covered⟩ :=
    windowOf_eq labelled (mem_hits_iff.mp replaced).1
  have returned : hit.2.result = some value := by
    change (if _ then none else hit.2.result) = some value at writes
    split at writes
    · cases writes
    · exact writes
  rw [closed.same] at returned
  obtain ⟨temporary, known, rfl⟩ := Option.map_eq_some_iff.mp returned
  rw [operationsOf, covered, filter_isOperation_trim]
  exact (closed.grown.temporary_eq known).1

private theorem count_results_filter {first second : Instruction → Bool}
    (apart : ∀ instruction, first instruction = true → second instruction = false)
    (instructions : List Instruction) (value : Var) :
    (results (instructions.filter first)).count value +
      (results (instructions.filter second)).count value ≤ (results instructions).count value := by
  induction instructions with
  | nil => simp [results]
  | cons instruction instructions inductionHypothesis =>
    have either := apart instruction
    cases writes : instruction.result with
    | none =>
      cases here : first instruction <;> cases there : second instruction <;>
        simp_all [results]
    | some result =>
      cases here : first instruction <;> cases there : second instruction <;>
        simp_all [results, List.count_cons] <;> omega

/-- A call and the literals kept in front of it write no value more often than the window. -/
theorem count_results_window (labelled : Labelled method)
    (replaced : hit ∈ hits outlines (found limits method)) (value : Var) :
    (results (kept (windowOf method hit.2) ++ [(editOf method hit).call])).count value ≤
      (results (windowOf method hit.2)).count value := by
  have apart := @count_results_filter (·.role == .literal) (·.isOperation)
    (fun instruction literal => by
      rw [Instruction.isOperation, beq_iff_eq.mp literal]
      rfl) (windowOf method hit.2) value
  have literals : (results (kept (windowOf method hit.2))).count value ≤
      (results ((windowOf method hit.2).filter (·.role == .literal))).count value :=
    (((List.dropLast_sublist _).filter _).filterMap _).count_le value
  rw [results_append, List.count_append]
  have last : (results [(editOf method hit).call]).count value ≤
      (results (operationsOf method hit.2)).count value := by
    cases writes : (editOf method hit).call.result with
    | none => simp [results, writes]
    | some result =>
      rw [results_cons_of_some writes]
      by_cases same : result = value
      · have member := List.mem_of_getLast? (lastResult_of_call labelled replaced writes)
        have some := List.count_pos_iff.mpr (same ▸ member)
        simpa [results, same] using some
      · simp [results, same]
  rw [operationsOf] at last
  omega

theorem Reworked.count_results (labelled : Labelled method)
    (reworked : Reworked outlines limits method original rewritten) (value : Var) :
    (results rewritten).count value ≤ (results original).count value := by
  induction reworked with
  | done => exact Nat.le_refl _
  | @keep original rewritten instruction rest inductionHypothesis =>
    have apart (list : List Instruction) :
        results (instruction :: list) = results [instruction] ++ results list :=
      results_append [instruction] list
    rw [apart rewritten, apart original, List.count_append, List.count_append]
    exact Nat.add_le_add_left inductionHypothesis _
  | @replace original rewritten hit replaced rest inductionHypothesis =>
    have here := count_results_window labelled replaced value
    rw [List.append_cons, results_append _ rewritten, results_append _ original,
      List.count_append, List.count_append]
    exact Nat.add_le_add here inductionHypothesis

theorem Reworked.results_subset (labelled : Labelled method)
    (reworked : Reworked outlines limits method original rewritten) :
    results rewritten ⊆ results original := by
  intro value written
  have some := List.count_pos_iff.mpr written
  exact List.count_pos_iff.mp (Nat.lt_of_lt_of_le some (reworked.count_results labelled value))

end Pipeline

end Outlining
