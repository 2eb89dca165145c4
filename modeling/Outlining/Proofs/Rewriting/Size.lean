import Mathlib.Algebra.Order.Ring.Nat
import Outlining.Proofs.Rewriting.Chain

namespace Outlining.Rewriting

open Outlining.Bytecode

variable {place : Nat} {original rewritten window first : List Instruction} {edits : List Edit}
  {edit : Edit} {replaces : List Instruction → Edit → Prop} {line : List Entry}
  {survivor : Instruction × Nat}

/-! ## What a block loses -/

/-- What the edits remove from the instructions at a place. -/
def removedAt (edits : List Edit) (place : Nat) (instructions : List Instruction) :
    List Instruction :=
  edits.flatMap fun edit => removed (windowOf edit place instructions)

theorem removedAt_zero (edits : List Edit) (instructions : List Instruction) :
    (windows edits instructions).flatMap removed = removedAt edits 0 instructions := by
  rw [windows, List.flatMap_map, removedAt]

theorem length_window (some : window ≠ []) :
    (kept window).length + (removed window).length + 1 = window.length := by
  have parts : window.dropLast.length = _ :=
    List.length_eq_length_filter_add fun instruction => instruction.role == .literal
  have last := List.length_pos_iff.mpr some
  rw [List.length_dropLast] at parts
  unfold kept removed
  simp only [bne] at parts ⊢
  omega

theorem removedAt_append (later : ∀ edit ∈ edits, place + first.length ≤ edit.start) :
    removedAt edits place (first ++ original) =
      removedAt edits (place + first.length) original := by
  apply List.flatMap_congr
  intro edit member
  have behind := later edit member
  rw [windowOf, windowOf, List.drop_append, List.drop_eq_nil_of_le (by omega), List.nil_append,
    Nat.sub_sub]

theorem Spliced.length_eq (result : Spliced replaces place original edits rewritten)
    (spans : Spans replaces) :
    rewritten.length + (removedAt edits place original).length = original.length := by
  induction result with
  | done => rfl
  | @keep place original rewritten edits instruction rest inductionHypothesis =>
    have behind : removedAt edits place ([instruction] ++ original) = _ :=
      removedAt_append fun edit member => (rest.le_start edit member).1
    rw [List.singleton_append, List.length_singleton] at behind
    rw [behind, List.length_cons, List.length_cons]
    omega
  | @replace window original rewritten edit edits replaced stops rest inductionHypothesis =>
    have width : edit.stop - edit.start = window.length := by omega
    have here : windowOf edit edit.start (window ++ original) = window := by
      simp [windowOf, width]
    have behind : removedAt edits edit.start (window ++ original) = _ :=
      removedAt_append fun edit member => stops ▸ (rest.le_start edit member).1
    have parts := length_window (spans window edit replaced)
    rw [removedAt, List.flatMap_cons, here, ← removedAt, behind, ← stops]
    simp only [List.length_append, List.length_cons]
    omega

/-! ## How many parts there are -/

theorem length_divide_kept :
    (divide true (.kept survivor :: line)).length = (divide true line).length := by
  simp only [divide, cut, if_pos]
  rcases cut line with ⟨_ | ⟨segment, segments⟩, _ | ⟨entry, final⟩⟩ <;> rfl

theorem length_divide_append (stays : List (Instruction × Nat)) (line : List Entry) :
    (divide true (stays.map .kept ++ line)).length = (divide true line).length := by
  induction stays with
  | nil => rfl
  | cons survivor stays inductionHypothesis =>
    rw [List.map_cons, List.cons_append, length_divide_kept, inductionHypothesis]

/-- A call ends its part, and if it ends the block then there is no further part. -/
theorem length_divide_call (edit : Edit) (line : List Entry) :
    (divide true (.call edit :: line)).length =
      if line = [] then 1 else (divide true line).length + 1 := by
  split
  · next none =>
    rw [none]
    rfl
  · next some =>
    have whole := flatten_cut line
    simp only [divide, cut, if_pos]
    generalize cut line = parts at whole
    obtain ⟨_ | ⟨segment, segments⟩, _ | ⟨entry, final⟩⟩ := parts
    · exact absurd whole.symm some
    all_goals simp

section Spliced

variable (result : Spliced replaces place original edits rewritten) (spans : Spans replaces)
include result spans

theorem Spliced.entries_eq_nil_iff : entries edits place original = [] ↔ original = [] := by
  constructor
  · intro none
    cases result with
    | done => rfl
    | keep instruction rest =>
      rw [entries_cons fun edit member => (rest.le_start edit member).1] at none
      cases none
    | replace replaced stops rest =>
      obtain ⟨front, last, rfl⟩ := spans.exists_last replaced
      rw [List.length_append, List.length_singleton] at stops
      rw [List.append_assoc, List.singleton_append, entries_window stops] at none
      simp at none
  · rintro rfl
    rfl

/-- A guarded block has one part more than calls with something behind them. -/
theorem Spliced.length_divide : (divide true (entries edits place original)).length =
    edits.countP (fun edit => edit.stop < place + original.length) + 1 := by
  induction result with
  | done => rfl
  | @keep place original rewritten edits instruction rest inductionHypothesis =>
    rw [entries_cons fun edit member => (rest.le_start edit member).1, length_divide_kept,
      inductionHypothesis, List.length_cons, Nat.add_right_comm, Nat.add_assoc]
  | @replace window original rewritten edit edits replaced stops rest inductionHypothesis =>
    have none := rest.entries_eq_nil_iff spans
    obtain ⟨front, last, rfl⟩ := spans.exists_last replaced
    have next := stops
    rw [List.length_append, List.length_singleton] at stops
    have ends : edit.start + (front ++ [last] ++ original).length =
        edit.stop + original.length := by
      rw [List.length_append, next]
      omega
    rw [ends, List.append_assoc, List.singleton_append, entries_window stops,
      length_divide_append, length_divide_call, List.countP_cons]
    cases original with
    | nil =>
      -- the window ends the block, so that its call ends the last part
      rw [none.mpr rfl] at inductionHypothesis
      rw [if_pos (none.mpr rfl), if_neg (by simp), Nat.add_zero]
      exact inductionHypothesis
    | cons instruction original =>
      rw [if_neg fun empty => List.cons_ne_nil _ _ (none.mp empty), inductionHypothesis]
      simp

end Spliced

/-- The number of calls in a guarded block that do not end it. -/
def jumpsIn (edits : List Edit) (block : Block) : Nat :=
  if block.isGuarded then
    (editsOf edits block.label).countP fun edit => edit.stop < block.instructions.length
  else 0

section Block

variable {block : Block}
  (result : Spliced replaces 0 block.instructions (editsOf edits block.label) rewritten)
  (spans : Spans replaces)
include result spans

theorem length_partsOf : (partsOf edits block).length = jumpsIn edits block + 1 := by
  unfold partsOf jumpsIn
  split
  · next guarded => simpa [guarded] using result.length_divide spans
  · next unguarded =>
    rw [Bool.eq_false_iff.mpr unguarded]
    rfl

theorem length_flatten_partsOf : (partsOf edits block).flatten.length +
    (removedAt (editsOf edits block.label) 0 block.instructions).length =
      block.instructions.length := by
  have left := result.length_eq spans
  rw [← result.spliced_eq, result.spliced_eq_map spans, List.length_map] at left
  rw [partsOf, flatten_divide]
  exact left

end Block

/-! ## Sizes of chains -/

def sizeAt (blocks : List Block) (label : Label) : Nat :=
  match blocks[label]? with
  | some block => block.instructions.length
  | none => 0

theorem sum_sizeAt (blocks : List Block) :
    ((List.range blocks.length).map (sizeAt blocks)).sum =
      (blocks.map (·.instructions.length)).sum := by
  apply congrArg
  apply List.ext_getElem (by simp)
  intro place _ inside
  rw [List.length_map] at inside
  simp [sizeAt, List.getElem?_eq_getElem inside]

variable {blocks : List Block} {handlers : List Handler} {successors labels : List Label}
  {label : Label} {parts : List (List Instruction)}

section Chain

variable (chain : Chain blocks handlers successors label labels parts)
include chain

theorem Chain.length_eq : parts.length = labels.length + 1 := by
  induction chain with
  | last found => rfl
  | link found rest inductionHypothesis =>
    rw [List.length_cons, List.length_cons, inductionHypothesis]

/-- A chain has its parts and the jumps between them. -/
theorem Chain.sum_sizeAt : sizeAt blocks label + (labels.map (sizeAt blocks)).sum =
    parts.flatten.length + labels.length := by
  induction chain with
  | last found => simp [sizeAt, found]
  | link found rest inductionHypothesis =>
    simp only [sizeAt, found, List.map_cons, List.sum_cons, List.length_append,
      List.length_nil, List.flatten_cons, List.length_cons] at inductionHypothesis ⊢
    omega

end Chain

theorem size_eq_sum (method : Method) :
    method.size = (method.blocks.map (·.instructions.length)).sum :=
  List.length_flatMap

/-- Whether a block with what was split off from it has grown by its jumps and nothing else. -/
def Shrinks (edits : List Edit) (blocks : List Block) (block : Block) (labels : List Label) :
    Prop :=
  sizeAt blocks block.label + (labels.map (sizeAt blocks)).sum +
      (removedAt (editsOf edits block.label) 0 block.instructions).length =
    block.instructions.length + jumpsIn edits block

theorem sum_shrinks {list : List Block} {fresh : List (List Label)}
    (shrinks : list.Forall₂ (Shrinks edits blocks) fresh) :
    (list.map fun block => sizeAt blocks block.label).sum +
        (fresh.flatten.map (sizeAt blocks)).sum +
        (list.map fun block =>
          (removedAt (editsOf edits block.label) 0 block.instructions).length).sum =
      (list.map (·.instructions.length)).sum + (list.map (jumpsIn edits)).sum := by
  induction shrinks with
  | nil => rfl
  | cons first rest inductionHypothesis =>
    unfold Shrinks at first
    simp only [List.map_cons, List.sum_cons, List.flatten_cons, List.map_append, List.sum_append]
    omega

/-- A method loses what the edits remove, and gains the jumps between the parts of its blocks. -/
theorem size_apply {method : Method} (labelled : Labelled method) (usage : Usage)
    (spans : Spans replaces) (spliced : ∀ block ∈ method.blocks, ∃ rewritten,
      Spliced replaces 0 block.instructions (editsOf edits block.label) rewritten) :
    (apply edits usage method).size + (removedFrom edits method).length =
      method.size + (method.blocks.map (jumpsIn edits)).sum := by
  obtain ⟨fresh, known, chains⟩ := exists_chains_apply labelled usage spans spliced
  have shrinks : method.blocks.Forall₂ (Shrinks edits (apply edits usage method).blocks) fresh := by
    apply List.forall₂_iff_zip.mpr
    refine ⟨chains.length_eq, fun {block labels} listed => ?_⟩
    obtain ⟨rewritten, result⟩ := spliced block (List.of_mem_zip listed).1
    have chain := (List.forall₂_iff_zip.mp chains).2 listed
    have sizes := chain.sum_sizeAt
    have count := chain.length_eq
    rw [List.length_map, length_partsOf result spans] at count
    rw [← List.map_flatten, List.length_map] at sizes
    have left := length_flatten_partsOf result spans
    unfold Shrinks
    omega
  have total : (apply edits usage method).size =
      (method.blocks.map fun block => sizeAt (apply edits usage method).blocks block.label).sum +
        (fresh.flatten.map (sizeAt (apply edits usage method).blocks)).sum := by
    have labels := labels_of_labelled labelled
    rw [← List.range_eq_range'] at labels
    rw [size_eq_sum, ← sum_sizeAt, ← known, List.map_append, List.sum_append, ← labels,
      List.map_map]
    rfl
  rw [total, size_eq_sum, removedFrom, List.length_flatMap]
  simp only [removedAt_zero]
  exact sum_shrinks shrinks

end Outlining.Rewriting
