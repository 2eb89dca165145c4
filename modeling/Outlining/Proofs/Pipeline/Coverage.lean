import Mathlib.Data.List.Pairwise
import Outlining.Proofs.Pipeline.Faultless
import Outlining.Proofs.Pipeline.Replacement
import Outlining.Proofs.Rewriting.Survivor
import Outlining.Proofs.Window.Liveness

namespace Outlining

open Outlining.Bytecode Outlining.Rewriting Outlining.Template Outlining.Window

def Bytecode.Method.instruction? (method : Method) (label : Label) (place : Nat) :
    Option Instruction :=
  method.blocks[label]?.bind (·.instructions[place]?)

/-- Whether a window covers a place of a block. -/
def Window.Candidate.Covers (candidate : Candidate) (label : Label) (place : Nat) : Prop :=
  candidate.block = label ∧ candidate.start ≤ place ∧ place < candidate.stop

namespace Pipeline

variable {outlines : List Outline} {limits : Limits} {method : Method} {block : Block}
  {label : Label} {place : Nat} {instruction : Instruction} {candidate : Candidate}
  {hit : Outline × Candidate} {value : Var}

theorem instruction?_eq_some_iff : method.instruction? label place = some instruction ↔
    ∃ block, method.blocks[label]? = some block ∧ block.instructions[place]? = some instruction := by
  rw [Method.instruction?, Option.bind_eq_some_iff]

theorem mem_instructions_iff : instruction ∈ method.instructions ↔
    ∃ label place, method.instruction? label place = some instruction := by
  simp only [instruction?_eq_some_iff]
  rw [Method.instructions, List.mem_flatMap]
  constructor
  · rintro ⟨block, present, inside⟩
    obtain ⟨label, there⟩ := List.mem_iff_getElem?.mp present
    obtain ⟨place, found⟩ := List.mem_iff_getElem?.mp inside
    exact ⟨label, place, block, there, found⟩
  · rintro ⟨label, place, block, there, found⟩
    exact ⟨block, List.mem_of_getElem? there, List.mem_of_getElem? found⟩

theorem mem_windowOf_iff : instruction ∈ windowOf method candidate ↔
    ∃ place, candidate.Covers candidate.block place ∧
      method.instruction? candidate.block place = some instruction := by
  unfold windowOf Method.instruction? Candidate.Covers
  cases method.blocks[candidate.block]? with
  | none => simp
  | some block =>
    simp only [List.mem_iff_getElem?, List.getElem?_take, List.getElem?_drop, Option.bind_some,
      true_and]
    constructor
    · rintro ⟨place, found⟩
      split at found
      · exact ⟨candidate.start + place, ⟨by omega, by omega⟩, found⟩
      · cases found
    · rintro ⟨place, ⟨starts, stops⟩, found⟩
      refine ⟨place - candidate.start, ?_⟩
      rw [if_pos (by omega), Nat.add_sub_cancel' starts]
      exact found

theorem mem_hits_iff {candidates : List Candidate} : hit ∈ hits outlines candidates ↔
    hit.2 ∈ candidates ∧ outlineFor? outlines hit.2.template = some hit.1 := by
  simp only [hits, List.mem_filterMap, Option.map_eq_some_iff]
  constructor
  · rintro ⟨candidate, member, outline, known, rfl⟩
    exact ⟨member, known⟩
  · rintro ⟨member, known⟩
    exact ⟨hit.2, member, hit.1, known, rfl⟩

section Block

variable (valid : method.defect? = none)
include valid

theorem mem_foundIn_iff (present : block ∈ method.blocks) :
    candidate ∈ foundIn limits method block ↔
      candidate ∈ found limits method ∧ candidate.block = block.label := by
  rw [← filter_found (labelled_of_valid valid) present, List.mem_filter, beq_iff_eq]

theorem label_eq (there : method.blocks[label]? = some block) : block.label = label :=
  labelled_of_valid valid label block there

theorem eq_of_covers {other : Outline × Candidate} (member : hit ∈ hits outlines (found limits method))
    (otherMember : other ∈ hits outlines (found limits method))
    (covers : hit.2.Covers label place) (otherCovers : other.2.Covers label place) :
    hit = other := by
  by_contra differs
  obtain ⟨listed, known⟩ := mem_hits_iff.mp member
  obtain ⟨otherListed, otherKnown⟩ := mem_hits_iff.mp otherMember
  obtain ⟨block, present, there, _⟩ := windowOf_eq (labelled_of_valid valid) listed
  have here := label_eq valid there
  have inside : hit ∈ hits outlines (foundIn limits method block) :=
    mem_hits_iff.mpr ⟨(mem_foundIn_iff valid present).mpr ⟨listed, here.symm⟩, known⟩
  have otherInside : other ∈ hits outlines (foundIn limits method block) :=
    mem_hits_iff.mpr ⟨(mem_foundIn_iff valid present).mpr
      ⟨otherListed, otherCovers.1.trans (covers.1.symm.trans here.symm)⟩, otherKnown⟩
  obtain ⟨_, spliced⟩ := exists_spliced outlines (cut_scanBlock (.ofMethod method limits) block)
    fun instruction member => List.mem_flatMap.mpr ⟨block, present, member⟩
  have apart : (hits outlines (foundIn limits method block)).Pairwise fun left right =>
      left.2.stop ≤ right.2.start ∨ right.2.stop ≤ left.2.start :=
    (List.pairwise_map.mp spliced.pairwise).imp .inl
  have symmetric : Std.Symm fun left right : Outline × Candidate =>
      left.2.stop ≤ right.2.start ∨ right.2.stop ≤ left.2.start := ⟨fun _ _ => Or.symm⟩
  have either := apart.forall inside otherInside differs
  obtain ⟨_, starts, stops⟩ := covers
  obtain ⟨_, otherStarts, otherStops⟩ := otherCovers
  rcases either with before | after
  · omega
  · omega

end Block

/-- An instruction at a place that no replaced window takes away. -/
def Kept (replaced : List (Outline × Candidate)) (label : Label) (place : Nat)
    (instruction : Instruction) : Prop :=
  ∀ hit ∈ replaced, hit.2.Covers label place → instruction.role = .literal

theorem ends_replaced (outlines : List Outline) (limits : Limits) (method : Method) :
    Ends (Replaced outlines limits method) := by
  rintro window edit ⟨hit, _, _, taken, _, _, _, _, _, rfl, rfl⟩ last known literal
  have solid := getLast?_trim known
  simp [Instruction.isTransparent, literal, Role.isTransparent] at solid

section Rewritten

variable (valid : method.defect? = none)
include valid

theorem survives_iff (there : method.blocks[label]? = some block) :
    Survives ((hits outlines (foundIn limits method block)).map (editOf method)) place
        instruction ↔
      Kept (hits outlines (found limits method)) label place instruction := by
  have here := label_eq valid there
  have present := List.mem_of_getElem? there
  constructor
  · intro survives hit member covers
    obtain ⟨listed, known⟩ := mem_hits_iff.mp member
    have inside : hit ∈ hits outlines (foundIn limits method block) :=
      mem_hits_iff.mpr ⟨(mem_foundIn_iff valid present).mpr
        ⟨listed, covers.1.trans here.symm⟩, known⟩
    exact survives _ (List.mem_map_of_mem inside) covers.2.1 covers.2.2
  · intro kept edit member starts stops
    obtain ⟨hit, inside, rfl⟩ := List.mem_map.mp member
    obtain ⟨listed, known⟩ := mem_hits_iff.mp inside
    obtain ⟨listed, label⟩ := (mem_foundIn_iff valid present).mp listed
    exact kept hit (mem_hits_iff.mpr ⟨listed, known⟩) ⟨label.trans here, starts, stops⟩

theorem mem_rewritten_of_spliced (there : method.blocks[label]? = some block)
    (survives : ∀ rewritten, Spliced (Replaced outlines limits method) 0 block.instructions
      ((hits outlines (foundIn limits method block)).map (editOf method)) rewritten →
      instruction ∈ rewritten) :
    redirect (gone outlines limits method) (.ofMethod method) instruction ∈
      (rewritten outlines limits method).instructions := by
  obtain ⟨first, instructions, begins, spliced, joined⟩ := exists_rejoined valid there
  obtain ⟨part, present, inside⟩ := joined.mem (List.mem_of_getElem? begins)
    (List.mem_map_of_mem (survives _ spliced))
  exact List.mem_flatMap.mpr ⟨part, present, inside⟩

theorem mem_rewritten_of_kept (found : method.instruction? label place = some instruction)
    (kept : Kept (hits outlines (Pipeline.found limits method)) label place instruction) :
    redirect (gone outlines limits method) (.ofMethod method) instruction ∈
      (rewritten outlines limits method).instructions := by
  obtain ⟨block, there, found⟩ := instruction?_eq_some_iff.mp found
  refine mem_rewritten_of_spliced valid there fun _ spliced => ?_
  exact spliced.mem_of_survives (ends_replaced outlines limits method) found
    (by rw [Nat.zero_add]; exact (survives_iff valid there).mpr kept)

theorem call_mem_rewritten (member : hit ∈ hits outlines (found limits method)) :
    redirect (gone outlines limits method) (.ofMethod method) (editOf method hit).call ∈
      (rewritten outlines limits method).instructions := by
  obtain ⟨listed, known⟩ := mem_hits_iff.mp member
  obtain ⟨block, present, there, _⟩ := windowOf_eq (labelled_of_valid valid) listed
  refine mem_rewritten_of_spliced valid there fun _ spliced => ?_
  refine spliced.mem_call _ (List.mem_map_of_mem (mem_hits_iff.mpr ⟨?_, known⟩))
  exact (mem_foundIn_iff valid present).mpr ⟨listed, (label_eq valid there).symm⟩

/-- Every instruction of a rewritten method was kept, or calls an outline, or is a jump between
parts of a block. -/
theorem mem_rewritten_cases
    (member : instruction ∈ (rewritten outlines limits method).instructions) :
    instruction = jump ∨
    (∃ label place original, method.instruction? label place = some original ∧
      Kept (hits outlines (found limits method)) label place original ∧
      instruction = redirect (gone outlines limits method) (.ofMethod method) original) ∨
    ∃ hit ∈ hits outlines (found limits method), instruction =
      redirect (gone outlines limits method) (.ofMethod method) (editOf method hit).call := by
  obtain ⟨part, listed, inside⟩ := List.mem_flatMap.mp member
  rw [rewritten_eq_apply] at listed
  obtain ⟨original, among, rfl⟩ := List.mem_map.mp listed
  obtain ⟨source, within, rfl⟩ := List.mem_map.mp inside
  rcases mem_rewriteBlocks_cases (List.mem_append.mp among) within with
    rfl | ⟨block, present, found⟩
  · exact .inl (by simp [redirect, jump])
  · obtain ⟨label, there⟩ := List.mem_iff_getElem?.mp present
    obtain ⟨_, instructions, _, spliced, _⟩ :=
      @exists_rejoined outlines limits _ _ _ valid there
    rw [editsOf_editsFor (labelled_of_valid valid) present, spliced.spliced_eq] at found
    rcases spliced.mem_cases (ends_replaced outlines limits method) found with
      ⟨place, found, survives⟩ | ⟨edit, listed, rfl⟩
    · rw [Nat.zero_add] at survives
      exact .inr (.inl ⟨label, place, source, instruction?_eq_some_iff.mpr ⟨block, there, found⟩,
        (survives_iff valid there).mp survives, rfl⟩)
    · obtain ⟨hit, here, rfl⟩ := List.mem_map.mp listed
      obtain ⟨inBlock, known⟩ := mem_hits_iff.mp here
      exact .inr (.inr ⟨hit, mem_hits_iff.mpr
        ⟨((mem_foundIn_iff valid present).mp inBlock).1, known⟩, rfl⟩)

theorem mem_gone (member : hit ∈ hits outlines (found limits method))
    (inside : instruction ∈ windowOf method hit.2) (refines : instruction.role = .refinement)
    (writes : instruction.result = some value) : value ∈ gone outlines limits method := by
  obtain ⟨listed, known⟩ := mem_hits_iff.mp member
  obtain ⟨block, present, there, _, taken, _, _, _, _, closed, covered⟩ :=
    windowOf_eq (labelled_of_valid valid) listed
  have edited : editOf method hit ∈ editsOf (editsFor outlines limits method) block.label := by
    refine List.mem_filter.mpr ⟨List.mem_map_of_mem member, ?_⟩
    simp [editOf, label_eq valid there]
  have same : Rewriting.windowOf (editOf method hit) 0 block.instructions =
      windowOf method hit.2 := by
    simp [Rewriting.windowOf, windowOf, editOf, there]
  have transparent : instruction.isTransparent = true := by
    rw [Instruction.isTransparent, refines]
    rfl
  have taken : instruction ∈ removed (windowOf method hit.2) := by
    refine List.mem_filter.mpr ⟨mem_dropLast inside fun last ends equal => ?_, by simp [refines]⟩
    rw [covered] at ends
    rw [← equal, getLast?_trim ends] at transparent
    cases transparent
  have gone : instruction ∈ removedFrom (editsFor outlines limits method) method :=
    List.mem_flatMap.mpr ⟨block, present, List.mem_flatMap.mpr
      ⟨_, List.mem_map_of_mem edited, by rw [same]; exact taken⟩⟩
  exact List.mem_filterMap.mpr ⟨instruction, List.mem_filter.mpr ⟨gone, by simp [refines]⟩, writes⟩

end Rewritten

end Pipeline

end Outlining
