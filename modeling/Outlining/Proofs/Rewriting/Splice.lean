import Mathlib.Data.List.Basic
import Outlining.Rewriting

/-! Edits whose windows follow one another leave all instructions outside the windows where they
are, and the literals inside. Joined again, the parts of a block that was split are the block after
its edits. -/
namespace Outlining.Rewriting

open Outlining.Bytecode

variable {place : Nat} {original rewritten : List Instruction} {edits : List Edit}
  {replaces : List Instruction → Edit → Prop}

/-- The instructions at `place` after the edits, in one piece. -/
def spliced (place : Nat) (edits : List Edit) (instructions : List Instruction) :
    List Instruction :=
  (splice place edits instructions).1.flatten ++ (splice place edits instructions).2

/-- Some instructions at `place`, and what they are after edits of windows that follow one
another. -/
inductive Spliced (replaces : List Instruction → Edit → Prop) :
    Nat → List Instruction → List Edit → List Instruction → Prop where
  | done (place : Nat) : Spliced replaces place [] [] []
  | keep {place : Nat} {original rewritten : List Instruction} {edits : List Edit}
      (instruction : Instruction) (rest : Spliced replaces (place + 1) original edits rewritten) :
      Spliced replaces place (instruction :: original) edits (instruction :: rewritten)
  | replace {window original rewritten : List Instruction} {edit : Edit} {edits : List Edit}
      (replaced : replaces window edit) (stops : edit.stop = edit.start + window.length)
      (rest : Spliced replaces edit.stop original edits rewritten) :
      Spliced replaces edit.start (window ++ original) (edit :: edits)
        (kept window ++ edit.call :: rewritten)

theorem Spliced.le_start (result : Spliced replaces place original edits rewritten) :
    ∀ edit ∈ edits, place ≤ edit.start ∧ edit.start ≤ edit.stop := by
  induction result with
  | done => simp
  | keep instruction rest inductionHypothesis =>
    intro edit member
    obtain ⟨starts, stops⟩ := inductionHypothesis edit member
    exact ⟨by omega, stops⟩
  | @replace window original rewritten edit edits _ stops rest inductionHypothesis =>
    intro other member
    rcases List.mem_cons.mp member with rfl | member
    · exact ⟨Nat.le_refl _, by omega⟩
    · obtain ⟨starts, stopsToo⟩ := inductionHypothesis other member
      exact ⟨by omega, stopsToo⟩

theorem Spliced.imp {others : List Instruction → Edit → Prop}
    (result : Spliced replaces place original edits rewritten)
    (weaker : ∀ window edit, replaces window edit → others window edit) :
    Spliced others place original edits rewritten := by
  induction result with
  | done place => exact .done place
  | keep instruction rest inductionHypothesis => exact .keep instruction inductionHypothesis
  | replace replaced stops rest inductionHypothesis =>
    exact .replace (weaker _ _ replaced) stops inductionHypothesis

theorem Spliced.append (first : List Instruction)
    (rest : Spliced replaces (place + first.length) original edits rewritten) :
    Spliced replaces place (first ++ original) edits (first ++ rewritten) := by
  induction first generalizing place with
  | nil => exact rest
  | cons instruction first inductionHypothesis =>
    refine .keep instruction (inductionHypothesis ?_)
    simpa [Nat.add_assoc, Nat.add_comm 1] using rest

theorem splice_cons (instruction : Instruction)
    (later : ∀ edit ∈ edits, place + 1 ≤ edit.start ∧ edit.start ≤ edit.stop) :
    splice place edits (instruction :: original) =
      match splice (place + 1) edits original with
      | ([], final) => ([], instruction :: final)
      | (segment :: segments, final) => ((instruction :: segment) :: segments, final) := by
  cases edits with
  | nil => rfl
  | cons edit edits =>
    obtain ⟨starts, stops⟩ := later edit List.mem_cons_self
    obtain ⟨gap, before⟩ := Nat.exists_eq_add_of_le starts
    obtain ⟨width, after⟩ := Nat.exists_eq_add_of_le (Nat.le_trans starts stops)
    have start : edit.start - place = gap + 1 := by omega
    have stop : edit.stop - place = width + 1 := by omega
    have startNext : edit.start - (place + 1) = gap := by omega
    have stopNext : edit.stop - (place + 1) = width := by omega
    simp [splice, windowOf, start, stop, startNext, stopNext]

theorem spliced_cons (instruction : Instruction)
    (later : ∀ edit ∈ edits, place + 1 ≤ edit.start ∧ edit.start ≤ edit.stop) :
    spliced place edits (instruction :: original) =
      instruction :: spliced (place + 1) edits original := by
  rw [spliced, splice_cons instruction later, spliced]
  rcases splice (place + 1) edits original with ⟨_ | ⟨segment, segments⟩, final⟩
  · rfl
  · rfl

theorem Spliced.spliced_eq (result : Spliced replaces place original edits rewritten) :
    spliced place edits original = rewritten := by
  induction result with
  | done => rfl
  | keep instruction rest inductionHypothesis =>
    rw [spliced_cons instruction rest.le_start, inductionHypothesis]
  | @replace window original rewritten edit edits _ stops rest inductionHypothesis =>
    have width : edit.stop - edit.start = window.length := by omega
    rw [← inductionHypothesis]
    simp [spliced, splice, windowOf, width]

/-- A block, and what it is together with the blocks split off from it. Each part but the last
ends with a jump to a fresh block that has the same handlers. -/
inductive Rejoined (blocks : List Block) (fresh : Label) : Block → List Instruction → Prop where
  | whole {block : Block} (stays : ∀ target ∈ block.successors, target < fresh) :
      Rejoined blocks fresh block block.instructions
  | split {block next : Block} {label : Label} {part more : List Instruction}
      (jumps : block.instructions = part ++ [jump]) (successors : block.successors = [label])
      (isFresh : fresh ≤ label) (found : blocks[label]? = some next)
      (handlers : next.handlers = block.handlers) (rest : Rejoined blocks fresh next more) :
      Rejoined blocks fresh block (part ++ more)

variable {blocks : List Block} {fresh label : Label} {block : Block}

theorem rejoined_chain {handlers : List Handler} {successors : List Label}
    (stays : ∀ target ∈ successors, target < fresh) (above : fresh ≤ label)
    (first : List Instruction) (rest : List (List Instruction))
    (placed : ∀ (place : Nat) part, (chain handlers successors label first rest).2.2[place]? = some part →
      blocks[label + place]? = some part)
    (instructions : block.instructions = (chain handlers successors label first rest).1)
    (targets : block.successors = (chain handlers successors label first rest).2.1)
    (guarded : block.handlers = handlers) :
    Rejoined blocks fresh block (first :: rest).flatten := by
  induction rest generalizing label first block with
  | nil =>
    have whole : (first :: []).flatten = block.instructions := by
      rw [instructions, chain, List.flatten_singleton]
    rw [whole]
    exact .whole (by rw [targets, chain]; exact stays)
  | cons next rest inductionHypothesis =>
    rw [chain] at instructions targets placed
    have found := placed 0 _ rfl
    refine .split instructions targets above found guarded.symm ?_
    refine inductionHypothesis (Nat.le_trans above (Nat.le_add_right label 1)) next
      (fun place part there => ?_) rfl rfl rfl
    have there := placed (place + 1) part (by simpa using there)
    rwa [Nat.add_assoc, Nat.add_comm 1]

theorem rejoined_rewriteBlock (stays : ∀ target ∈ block.successors, target < fresh)
    (above : fresh ≤ label)
    (placed : ∀ (place : Nat) part, (rewriteBlock edits label block).2[place]? = some part →
      blocks[label + place]? = some part) :
    Rejoined blocks fresh (rewriteBlock edits label block).1
      (spliced 0 edits block.instructions) := by
  unfold rewriteBlock at placed ⊢
  unfold spliced
  rcases cut : splice 0 edits block.instructions with ⟨segments, final⟩
  simp only [cut] at placed ⊢
  by_cases guarded : block.isGuarded = true
  · simp only [guarded, if_true] at placed ⊢
    have joined : (segments ++ if final.isEmpty then [] else [final]).flatten =
        segments.flatten ++ final := by
      cases final <;> simp
    split at placed
    · rename_i none
      rw [none] at joined
      have unchanged : block.instructions = [] := by
        cases edits with
        | nil =>
          cases cut
          simpa using joined
        | cons edit edits =>
          rw [splice] at cut
          cases cut
          simp at none
      rw [← joined, List.flatten_nil, ← unchanged]
      exact .whole stays
    · rename_i first rest some
      rw [← joined, some]
      exact rejoined_chain stays above first rest placed rfl rfl rfl
  · simp only [guarded] at placed ⊢
    exact .whole stays

theorem rejoined_rewriteBlocks {list : List Block} (above : fresh ≤ label)
    (stays : ∀ block ∈ list, ∀ target ∈ block.successors, target < fresh)
    (placed : ∀ (place : Nat) part, (rewriteBlocks edits label list).2[place]? = some part →
      blocks[label + place]? = some part) {index : Nat} (found : list[index]? = some block) :
    ∃ first, (rewriteBlocks edits label list).1[index]? = some first ∧
      Rejoined blocks fresh first
        (spliced 0 (editsOf edits block.label) block.instructions) := by
  induction list generalizing label index with
  | nil => cases found
  | cons head list inductionHypothesis =>
    have others : ∀ block ∈ list, ∀ target ∈ block.successors, target < fresh :=
      fun block member => stays block (List.mem_cons_of_mem _ member)
    rw [rewriteBlocks] at placed ⊢
    cases edited : editsOf edits head.label with
    | nil =>
      simp only [edited] at placed ⊢
      cases index with
      | zero =>
        cases found
        refine ⟨_, rfl, ?_⟩
        rw [edited]
        exact .whole (stays _ List.mem_cons_self)
      | succ index => exact inductionHypothesis above others placed found
    | cons edit rest =>
      simp only [edited] at placed ⊢
      cases index with
      | zero =>
        cases found
        refine ⟨_, rfl, ?_⟩
        rw [edited]
        refine rejoined_rewriteBlock (stays _ List.mem_cons_self) above fun place part there => ?_
        exact placed place part
          (by rw [List.getElem?_append_left (List.getElem?_eq_some_iff.mp there).1, there])
      | succ index =>
        refine inductionHypothesis (Nat.le_trans above (Nat.le_add_right _ _)) others
          (fun place part there => ?_) found
        have there := placed ((rewriteBlock (edit :: rest) label head).2.length + place) part
          (by rw [List.getElem?_append_right (Nat.le_add_right _ _), Nat.add_sub_cancel_left, there])
        rwa [← Nat.add_assoc] at there

theorem Rejoined.map {change : Instruction → Instruction} (keeps : change jump = jump)
    {instructions : List Instruction} (joined : Rejoined blocks fresh block instructions) :
    Rejoined (blocks.map fun block => { block with instructions := block.instructions.map change })
      fresh { block with instructions := block.instructions.map change }
      (instructions.map change) := by
  induction joined with
  | whole stays => exact .whole stays
  | @split block next label part more jumps successors isFresh found handlers rest
      inductionHypothesis =>
    rw [List.map_append]
    have jumpsToo : block.instructions.map change = part.map change ++ [jump] := by
      rw [jumps, List.map_append, List.map_singleton, keeps]
    have foundToo : (blocks.map fun block =>
        { block with instructions := block.instructions.map change })[label]? =
        some { next with instructions := next.instructions.map change } := by
      rw [List.getElem?_map, found]
      rfl
    exact .split jumpsToo successors isFresh foundToo handlers inductionHypothesis

theorem length_rewriteBlocks (edits : List Edit) (label : Label) (list : List Block) :
    (rewriteBlocks edits label list).1.length = list.length := by
  induction list generalizing label with
  | nil => rfl
  | cons head list inductionHypothesis =>
    rw [rewriteBlocks]
    split <;> simp [inductionHypothesis]

/-- The blocks of a method after its edits. -/
theorem rejoined_apply {method : Method} (edits : List Edit) (usage : Usage)
    (stays : ∀ block ∈ method.blocks, ∀ target ∈ block.successors, target < method.blocks.length)
    (found : method.blocks[label]? = some block) :
    ∃ first, (apply edits usage method).blocks[label]? = some first ∧
      Rejoined (apply edits usage method).blocks method.blocks.length first
        ((spliced 0 (editsOf edits block.label) block.instructions).map
          (redirect (refinedBy (removedFrom edits method)) usage)) := by
  have count := length_rewriteBlocks edits method.blocks.length method.blocks
  have placed : ∀ (place : Nat) part,
      (rewriteBlocks edits method.blocks.length method.blocks).2[place]? = some part →
      ((rewriteBlocks edits method.blocks.length method.blocks).1 ++
        (rewriteBlocks edits method.blocks.length method.blocks).2)[method.blocks.length + place]? =
          some part := by
    intro place part there
    rw [List.getElem?_append_right (by omega), count, Nat.add_sub_cancel_left, there]
  obtain ⟨first, there, joined⟩ :=
    rejoined_rewriteBlocks (Nat.le_refl _) stays placed found
  refine ⟨_, ?_, joined.map (by simp [redirect, jump])⟩
  have inside := (List.getElem?_eq_some_iff.mp there).1
  simp only [apply, List.getElem?_map, List.getElem?_append_left inside, there, Option.map_some]

end Outlining.Rewriting
