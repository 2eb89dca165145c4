import Outlining.Proofs.Rewriting.Splice

namespace Outlining.Rewriting

open Outlining.Bytecode

variable {α : Type} {gather : List Instruction → List α} {edits others : List Edit} {edit : Edit}
  {label : Label} {block : Block} {place : Nat} {original rewritten : List Instruction}
  {replaces : List Instruction → Edit → Prop}

/-- Whether jumps add nothing to what is gathered from instructions, and what follows a call is
gathered on its own. -/
structure Gathers (gather : List Instruction → List α) (edits : List Edit) : Prop where
  nothing : gather [] = []
  jump : ∀ part, gather (part ++ [jump]) = gather part
  call : ∀ edit ∈ edits, ∀ part rest,
    gather (part ++ edit.call :: rest) = gather (part ++ [edit.call]) ++ gather rest

theorem Gathers.of_subset (gathers : Gathers gather edits) (subset : others ⊆ edits) :
    Gathers gather others where
  nothing := gathers.nothing
  jump := gathers.jump
  call := fun edit member => gathers.call edit (subset member)

theorem exists_call_of_mem_splice {segment : List Instruction}
    (member : segment ∈ (splice place edits original).1) :
    ∃ edit ∈ edits, ∃ part, segment = part ++ [edit.call] := by
  induction edits generalizing place original with
  | nil => cases member
  | cons edit edits inductionHypothesis =>
    rw [splice] at member
    rcases List.mem_cons.mp member with rfl | member
    · exact ⟨edit, List.mem_cons_self, _, rfl⟩
    · obtain ⟨other, listed, part, same⟩ := inductionHypothesis member
      exact ⟨other, List.mem_cons_of_mem _ listed, part, same⟩

section Gathers

variable (gathers : Gathers gather edits)
include gathers

theorem Gathers.flatten {segments : List (List Instruction)} (final : List Instruction)
    (ends : ∀ segment ∈ segments, ∃ edit ∈ edits, ∃ part, segment = part ++ [edit.call]) :
    gather (segments.flatten ++ final) = segments.flatMap gather ++ gather final := by
  induction segments with
  | nil => rfl
  | cons segment segments inductionHypothesis =>
    obtain ⟨edit, member, part, rfl⟩ := ends _ List.mem_cons_self
    have rest := inductionHypothesis fun other listed => ends other (List.mem_cons_of_mem _ listed)
    rw [List.flatten_cons, List.flatMap_cons, List.append_assoc, List.append_assoc,
      List.singleton_append, gathers.call edit member, rest, List.append_assoc]

theorem Gathers.chain (handlers : List Handler) (successors : List Label) (label : Label)
    (first : List Instruction) (rest : List (List Instruction)) :
    gather (chain handlers successors label first rest).1 ++
        (chain handlers successors label first rest).2.2.flatMap (gather ·.instructions) =
      (first :: rest).flatMap gather := by
  induction rest generalizing label first with
  | nil => rfl
  | cons next rest inductionHypothesis =>
    rw [Rewriting.chain, List.flatMap_cons, gathers.jump, List.flatMap_cons, inductionHypothesis]

theorem Gathers.rewriteBlock (label : Label) (block : Block) :
    gather (rewriteBlock edits label block).1.instructions ++
        (rewriteBlock edits label block).2.flatMap (gather ·.instructions) =
      gather (spliced 0 edits block.instructions) := by
  have ends : ∀ segment ∈ (splice 0 edits block.instructions).1,
      ∃ edit ∈ edits, ∃ part, segment = part ++ [edit.call] :=
    fun segment member => exists_call_of_mem_splice member
  unfold Rewriting.rewriteBlock spliced
  rcases cut : splice 0 edits block.instructions with ⟨segments, final⟩
  rw [cut] at ends
  dsimp only
  by_cases guarded : block.isGuarded = true
  · simp only [guarded, if_true]
    have parts : (segments ++ if final.isEmpty then [] else [final]).flatMap gather =
        segments.flatMap gather ++ gather final := by
      rw [List.flatMap_append]
      cases final with
      | nil => simp [gathers.nothing]
      | cons instruction final => simp
    rw [gathers.flatten final ends, ← parts]
    split
    · rename_i none
      cases edits with
      | nil =>
        cases cut
        rw [parts]
        simp
      | cons edit edits =>
        rw [splice] at cut
        cases cut
        simp at none
    · rename_i first rest some
      rw [some]
      exact gathers.chain ..
  · simp [guarded]

/-- All blocks after the edits give what the blocks in one piece give. -/
theorem Gathers.rewriteBlocks (label : Label) (list : List Block) :
    (((rewriteBlocks edits label list).1 ++ (rewriteBlocks edits label list).2).flatMap
        (gather ·.instructions)).Perm
      (list.flatMap fun block =>
        gather (spliced 0 (editsOf edits block.label) block.instructions)) := by
  induction list generalizing label with
  | nil => exact .refl []
  | cons block list inductionHypothesis =>
    rw [Rewriting.rewriteBlocks, List.flatMap_cons]
    cases edited : editsOf edits block.label with
    | nil => exact (inductionHypothesis label).append_left _
    | cons edit rest =>
      have subset : edit :: rest ⊆ edits := by
        rw [← edited]
        exact List.filter_subset_self edits
      rw [← (gathers.of_subset subset).rewriteBlock label block]
      dsimp only
      rw [List.cons_append, List.flatMap_cons, List.append_assoc]
      refine List.Perm.append_left _ ?_
      have later := inductionHypothesis
        (label + (Rewriting.rewriteBlock (edit :: rest) label block).2.length)
      rw [List.flatMap_append] at later
      rw [List.flatMap_append, List.flatMap_append, ← List.append_assoc]
      refine (List.perm_append_comm.append_right _).trans ?_
      rw [List.append_assoc]
      exact later.append_left _

end Gathers

/-- All blocks of a method after its edits give what its blocks in one piece give. -/
theorem perm_apply {usage : Usage} {method : Method}
    (gathers : Gathers (fun instructions => gather (instructions.map
      (redirect (refinedBy (removedFrom edits method)) usage))) edits) :
    ((apply edits usage method).blocks.flatMap (gather ·.instructions)).Perm
      (method.blocks.flatMap fun block =>
        gather ((spliced 0 (editsOf edits block.label) block.instructions).map
          (redirect (refinedBy (removedFrom edits method)) usage))) := by
  have parts := gathers.rewriteBlocks method.blocks.length method.blocks
  rw [apply]
  dsimp only
  rwa [List.flatMap_map]

theorem Spliced.eq_of_nil (result : Spliced replaces place original [] rewritten) :
    rewritten = original := by
  rw [← result.spliced_eq]
  rfl

/-- The first of some edits, with what stands before and after its window. -/
theorem Spliced.of_cons (result : Spliced replaces place original (edit :: edits) rewritten) :
    ∃ plain window later laterRewritten, original = plain ++ (window ++ later) ∧
      rewritten = plain ++ (kept window ++ edit.call :: laterRewritten) ∧
      replaces window edit ∧ edit.start = place + plain.length ∧
      edit.stop = edit.start + window.length ∧
      Spliced replaces edit.stop later edits laterRewritten := by
  generalize all : edit :: edits = listed at result
  induction result with
  | done => cases all
  | keep instruction rest inductionHypothesis =>
    obtain ⟨plain, window, later, laterRewritten, rfl, rfl, replaced, starts, stops, rest⟩ :=
      inductionHypothesis all
    refine ⟨instruction :: plain, window, later, laterRewritten, rfl, rfl, replaced, ?_, stops,
      rest⟩
    rw [starts, List.length_cons]
    omega
  | @replace window later laterRewritten _ _ replaced stops rest =>
    cases all
    exact ⟨[], window, later, laterRewritten, rfl, rfl, replaced, rfl, stops, rest⟩

theorem Spliced.of_append {first : List Instruction}
    (result : Spliced replaces place (first ++ original) edits rewritten)
    (later : ∀ edit ∈ edits, place + first.length ≤ edit.start) :
    ∃ rest, rewritten = first ++ rest ∧
      Spliced replaces (place + first.length) original edits rest := by
  induction first generalizing place rewritten with
  | nil => exact ⟨rewritten, rfl, result⟩
  | cons instruction first inductionHypothesis =>
    generalize whole : instruction :: first ++ original = all at result
    cases result with
    | done => cases whole
    | keep other rest =>
      cases whole
      have count : place + 1 + first.length = place + (instruction :: first).length := by
        rw [List.length_cons]
        omega
      obtain ⟨others, rfl, spliced⟩ := inductionHypothesis rest (by rwa [count])
      exact ⟨others, rfl, count ▸ spliced⟩
    | replace replaced stops rest =>
      have first := later _ List.mem_cons_self
      rw [List.length_cons] at first
      omega

end Outlining.Rewriting
