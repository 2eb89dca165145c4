import Outlining.Proofs.Bytecode.Root
import Outlining.Proofs.Rewriting.Survivor

namespace Outlining.Rewriting

open Outlining.Bytecode

variable {edits : List Edit} {label target place : Nat} {block part : Block}
  {instruction : Instruction} {original : List Instruction} {method : Method}

section Chain

variable {handlers : List Handler} {successors : List Label}

theorem labels_chain (handlers : List Handler) (successors : List Label) (label : Label)
    (first : List Instruction) (rest : List (List Instruction)) :
    (chain handlers successors label first rest).2.2.map (·.label) =
      List.range' label rest.length := by
  induction rest generalizing label first with
  | nil => rfl
  | cons next rest inductionHypothesis =>
    rw [chain, List.map_cons, inductionHypothesis, List.length_cons, List.range'_succ]

theorem successors_chain (first : List Instruction) (rest : List (List Instruction))
    (leads : target ∈ (chain handlers successors label first rest).2.1 ∨
      ∃ part ∈ (chain handlers successors label first rest).2.2, target ∈ part.successors) :
    target ∈ successors ∨ label ≤ target ∧ target < label + rest.length := by
  induction rest generalizing label first with
  | nil => exact .inl (by simpa [chain] using leads)
  | cons next rest inductionHypothesis =>
    rw [chain] at leads
    rw [List.length_cons]
    have later (leads : target ∈ (chain handlers successors (label + 1) next rest).2.1 ∨
        ∃ part ∈ (chain handlers successors (label + 1) next rest).2.2,
          target ∈ part.successors) :
        target ∈ successors ∨ label ≤ target ∧ target < label + (rest.length + 1) :=
      (inductionHypothesis next leads).imp_right fun inside => ⟨by omega, by omega⟩
    rcases leads with here | ⟨part, listed, leads⟩
    · obtain rfl := List.mem_singleton.mp here
      exact .inr ⟨Nat.le_refl _, by omega⟩
    · rcases List.mem_cons.mp listed with rfl | listed
      · exact later (.inl leads)
      · exact later (.inr ⟨part, listed, leads⟩)

theorem handlers_chain (first : List Instruction) (rest : List (List Instruction))
    (listed : part ∈ (chain handlers successors label first rest).2.2) :
    part.handlers = handlers := by
  induction rest generalizing label first with
  | nil => cases listed
  | cons next rest inductionHypothesis =>
    rw [chain] at listed
    rcases List.mem_cons.mp listed with rfl | listed
    · rfl
    · exact inductionHypothesis next listed

end Chain

/-- A block keeps its label, and the blocks split off are labelled one after the other. -/
theorem labels_rewriteBlock (edits : List Edit) (label : Label) (block : Block) :
    (rewriteBlock edits label block).1.label = block.label ∧
      (rewriteBlock edits label block).2.map (·.label) =
        List.range' label (rewriteBlock edits label block).2.length := by
  unfold rewriteBlock
  dsimp only
  split
  · split
    · exact ⟨rfl, rfl⟩
    · rename_i first rest _
      have labels := labels_chain block.handlers block.successors label first rest
      have count := congrArg List.length labels
      rw [List.length_map, List.length_range'] at count
      exact ⟨rfl, by rw [labels, count]⟩
  · exact ⟨rfl, rfl⟩

/-- Control leaves a block after its edits as before, or goes to a block split off. -/
theorem targets_rewriteBlock (listed : part = (rewriteBlock edits label block).1 ∨
      part ∈ (rewriteBlock edits label block).2) (leads : target ∈ part.targets) :
    target ∈ block.targets ∨
      label ≤ target ∧ target < label + (rewriteBlock edits label block).2.length := by
  unfold rewriteBlock at listed ⊢
  dsimp only at listed ⊢
  split at listed
  · rename_i guarded
    rw [if_pos guarded]
    split at listed
    · rcases listed with rfl | listed
      · exact .inl leads
      · cases listed
    · rename_i first rest some
      have count := congrArg List.length
        (labels_chain block.handlers block.successors label first rest)
      rw [List.length_map, List.length_range'] at count
      rcases listed with rfl | listed
      · rcases List.mem_append.mp leads with leads | guards
        · rw [count]
          exact (successors_chain first rest (.inl leads)).imp_left (List.mem_append_left _)
        · exact .inl (List.mem_append_right _ guards)
      · rcases List.mem_append.mp leads with leads | guards
        · rw [count]
          exact (successors_chain first rest (.inr ⟨part, listed, leads⟩)).imp_left
            (List.mem_append_left _)
        · rw [handlers_chain first rest listed] at guards
          exact .inl (List.mem_append_right _ guards)
  · rcases listed with rfl | listed
    · exact .inl leads
    · cases listed

/-- Blocks keep their labels, and the blocks split off are labelled one after the other. -/
theorem labels_rewriteBlocks (edits : List Edit) (label : Label) (list : List Block) :
    (rewriteBlocks edits label list).1.map (·.label) = list.map (·.label) ∧
      (rewriteBlocks edits label list).2.map (·.label) =
        List.range' label (rewriteBlocks edits label list).2.length := by
  induction list generalizing label with
  | nil => exact ⟨rfl, rfl⟩
  | cons head list inductionHypothesis =>
    rw [rewriteBlocks]
    cases editsOf edits head.label with
    | nil =>
      obtain ⟨kept, fresh⟩ := inductionHypothesis label
      exact ⟨congrArg (head.label :: ·) kept, fresh⟩
    | cons edit rest =>
      obtain ⟨here, split⟩ := labels_rewriteBlock (edit :: rest) label head
      obtain ⟨kept, fresh⟩ :=
        inductionHypothesis (label + (rewriteBlock (edit :: rest) label head).2.length)
      dsimp only
      rw [List.map_cons, List.map_cons, here, kept, List.map_append, split, fresh,
        List.length_append, List.range'_append_1]
      exact ⟨rfl, rfl⟩

/-- Whether a label is a target of some blocks, or one of the labels from the given one on. -/
def Reaches (list : List Block) (label count target : Nat) : Prop :=
  (∃ block ∈ list, target ∈ block.targets) ∨ label ≤ target ∧ target < label + count

theorem Reaches.cons {list : List Block} {split count : Nat}
    (reaches : Reaches list (label + split) count target) (head : Block) :
    Reaches (head :: list) label (split + count) target := by
  rcases reaches with ⟨block, present, leads⟩ | ⟨above, below⟩
  · exact .inl ⟨block, List.mem_cons_of_mem _ present, leads⟩
  · exact .inr ⟨by omega, by omega⟩

theorem reaches_rewriteBlock (listed : part = (rewriteBlock edits label block).1 ∨
      part ∈ (rewriteBlock edits label block).2) (leads : target ∈ part.targets)
    (list : List Block) (count : Nat) :
    Reaches (block :: list) label ((rewriteBlock edits label block).2.length + count) target := by
  rcases targets_rewriteBlock listed leads with before | ⟨above, below⟩
  · exact .inl ⟨block, List.mem_cons_self, before⟩
  · exact .inr ⟨above, by omega⟩

/-- Control leaves the blocks after their edits as before, or goes to blocks split off. -/
theorem reaches_rewriteBlocks {list : List Block}
    (listed : part ∈ (rewriteBlocks edits label list).1 ∨
      part ∈ (rewriteBlocks edits label list).2) (leads : target ∈ part.targets) :
    Reaches list label (rewriteBlocks edits label list).2.length target := by
  induction list generalizing label with
  | nil => simp [rewriteBlocks] at listed
  | cons head list inductionHypothesis =>
    rw [rewriteBlocks] at listed ⊢
    cases edited : editsOf edits head.label with
    | nil =>
      simp only [edited, List.mem_cons, or_assoc] at listed ⊢
      rcases listed with rfl | listed
      · exact .inl ⟨part, List.mem_cons_self, leads⟩
      · simpa using @Reaches.cons _ _ _ 0 _ (inductionHypothesis listed) head
    | cons edit rest =>
      simp only [edited, List.length_append, List.mem_cons, List.mem_append] at listed ⊢
      rcases listed with (rfl | listed) | listed | listed
      · exact reaches_rewriteBlock (.inl rfl) leads list _
      · exact (inductionHypothesis (.inl listed)).cons head
      · exact reaches_rewriteBlock (.inr listed) leads list _
      · exact (inductionHypothesis (.inr listed)).cons head

/-- After the edits of a block there are its instructions and the calls, and nothing else. -/
theorem mem_spliced_cases (member : instruction ∈ spliced place edits original) :
    instruction ∈ original ∨ ∃ edit ∈ edits, instruction = edit.call := by
  induction edits generalizing place original with
  | nil => exact .inl (by simpa [spliced, splice] using member)
  | cons edit edits inductionHypothesis =>
    have parts : instruction ∈ original.take (edit.start - place) ∨
        instruction ∈ kept (windowOf edit place original) ∨ instruction = edit.call ∨
        instruction ∈ spliced edit.stop edits (original.drop (edit.stop - place)) := by
      simpa [spliced, splice, or_assoc] using member
    rcases parts with before | inside | rfl | after
    · exact .inl (List.mem_of_mem_take before)
    · have taken := List.dropLast_subset _ (List.mem_filter.mp inside).1
      exact .inl (List.mem_of_mem_drop (List.mem_of_mem_take taken))
    · exact .inr ⟨edit, List.mem_cons_self, rfl⟩
    · rcases inductionHypothesis after with before | ⟨other, listed, same⟩
      · exact .inl (List.mem_of_mem_drop before)
      · exact .inr ⟨other, List.mem_cons_of_mem _ listed, same⟩

theorem labels_of_labelled (labelled : Labelled method) :
    method.blocks.map (·.label) = List.range' 0 method.blocks.length := by
  apply List.ext_getElem?
  intro place
  rw [List.getElem?_map]
  cases found : method.blocks[place]? with
  | none =>
    have outside := List.getElem?_eq_none_iff.mp found
    rw [List.getElem?_eq_none (by simpa using outside)]
    rfl
  | some block =>
    have inside := (List.getElem?_eq_some_iff.mp found).1
    rw [List.getElem?_range' inside, Option.map_some, labelled place block found]
    simp

theorem label_of_rewriteBlocks (labelled : Labelled method) (edits : List Edit)
    (found : ((rewriteBlocks edits method.blocks.length method.blocks).1 ++
      (rewriteBlocks edits method.blocks.length method.blocks).2)[place]? = some part) :
    part.label = place := by
  -- old blocks are labelled by their places, and the fresh ones go on from there
  obtain ⟨kept, fresh⟩ := labels_rewriteBlocks edits method.blocks.length method.blocks
  have labels : ((rewriteBlocks edits method.blocks.length method.blocks).1 ++
      (rewriteBlocks edits method.blocks.length method.blocks).2).map (·.label) =
        List.range' 0 (method.blocks.length +
          (rewriteBlocks edits method.blocks.length method.blocks).2.length) := by
    rw [List.map_append, kept, fresh, labels_of_labelled labelled, ← List.range'_append_1,
      Nat.zero_add]
  have here : _ = (List.range' 0 _)[place]? := congrArg (·[place]?) labels
  rw [List.getElem?_map, found, Option.map_some] at here
  obtain ⟨inside, same⟩ := List.getElem?_eq_some_iff.mp here.symm
  rw [List.getElem_range', Nat.zero_add, Nat.one_mul] at same
  exact same.symm

section Valid

variable (valid : method.defect? = none)
include valid

/-- The instructions of a valid method stay without a defect when operands are replaced by roots. -/
theorem defect?_redirect (gone : List Var)
    (sound : instruction.defect? method.types.length = none) :
    (redirect gone (.ofMethod method) instruction).defect? method.types.length = none := by
  rw [Instruction.defect?_eq_none_iff] at sound ⊢
  obtain ⟨inside, refines⟩ := sound
  refine ⟨fun value named => ?_, fun opcode => ?_⟩
  · rcases List.mem_append.mp named with read | written
    · obtain ⟨operand, reads, rfl⟩ := List.mem_map.mp read
      have known := inside operand (List.mem_append_left _ reads)
      split
      · exact root_lt (closed_of_valid valid) known
      · exact known
    · exact inside value (List.mem_append_right _ written)
  · rw [redirect, List.length_map]
    exact refines opcode

/-- Edits keep a method valid if their calls name values of its table. -/
theorem defect?_apply (calls : ∀ edit ∈ edits, edit.call.defect? method.types.length = none) :
    (apply edits (.ofMethod method) method).defect? = none := by
  have count := length_rewriteBlocks edits method.blocks.length method.blocks
  rw [Method.defect?_eq_none_iff]
  intro place block found
  rw [apply] at found ⊢
  rw [List.length_map, List.length_append, count]
  rw [List.getElem?_map, Option.map_eq_some_iff] at found
  obtain ⟨part, found, rfl⟩ := found
  have listed := List.mem_append.mp (List.mem_of_getElem? found)
  refine (Block.defect?_eq_none_iff ..).mpr ⟨?_, ?_, ?_⟩
  · show part.label = place
    exact label_of_rewriteBlocks (labelled_of_valid valid) edits found
  · intro target leads
    rcases reaches_rewriteBlocks listed leads with ⟨origin, present, before⟩ | ⟨_, below⟩
    · exact Nat.lt_of_lt_of_le (target_lt_of_valid valid present before) (Nat.le_add_right _ _)
    · exact below
  · intro instruction member
    obtain ⟨before, inside, rfl⟩ := List.mem_map.mp member
    apply defect?_redirect valid
    rcases mem_rewriteBlocks_cases listed inside with rfl | ⟨origin, present, inside⟩
    · rfl
    · rcases mem_spliced_cases inside with inside | ⟨edit, edited, rfl⟩
      · exact defect?_of_mem valid (List.mem_flatMap.mpr ⟨origin, present, inside⟩)
      · exact calls edit (List.mem_filter.mp edited).1

end Valid

end Outlining.Rewriting
