import Mathlib.Data.List.Induction
import Outlining.Proofs.Rewriting.Splice

namespace Outlining.Rewriting

open Outlining.Bytecode Outlining.Window

variable {place : Nat} {original rewritten : List Instruction} {edits : List Edit}
  {replaces : List Instruction → Edit → Prop} {instruction : Instruction}

/-- Whether an instruction at a place survives the edits: only literals survive in a window. -/
def Survives (edits : List Edit) (place : Nat) (instruction : Instruction) : Prop :=
  ∀ edit ∈ edits, edit.start ≤ place → place < edit.stop → instruction.role = .literal

/-- Whether windows end with something that is no literal. -/
def Ends (replaces : List Instruction → Edit → Prop) : Prop :=
  ∀ window edit, replaces window edit → ∀ last, window.getLast? = some last → last.role ≠ .literal

theorem mem_dropLast {window : List Instruction} (member : instruction ∈ window)
    (differs : ∀ last, window.getLast? = some last → last ≠ instruction) :
    instruction ∈ window.dropLast := by
  induction window using List.reverseRecOn with
  | nil => cases member
  | append_singleton front last =>
    rw [List.dropLast_concat]
    rcases List.mem_append.mp member with before | here
    · exact before
    · exact absurd (List.mem_singleton.mp here).symm (differs last (by simp))

theorem mem_kept {window : List Instruction}
    (ends : ∀ last, window.getLast? = some last → last.role ≠ .literal) :
    instruction ∈ kept window ↔ instruction ∈ window ∧ instruction.role = .literal := by
  rw [kept, List.mem_filter, beq_iff_eq]
  refine and_congr_left fun literal => ⟨fun member => List.dropLast_subset window member,
    fun member => mem_dropLast member fun last known same => ?_⟩
  exact ends last known (same ▸ literal)

theorem Spliced.mem_of_survives (result : Spliced replaces place original edits rewritten)
    (ends : Ends replaces) {index : Nat} (found : original[index]? = some instruction)
    (survives : Survives edits (place + index) instruction) : instruction ∈ rewritten := by
  induction result generalizing index with
  | done => cases found
  | keep other rest inductionHypothesis =>
    cases index with
    | zero =>
      cases found
      exact List.mem_cons_self
    | succ index =>
      refine List.mem_cons_of_mem _ (inductionHypothesis found ?_)
      rwa [Nat.add_assoc, Nat.add_comm 1]
  | @replace window original rewritten edit edits replaced stops rest inductionHypothesis =>
    by_cases inside : index < window.length
    · rw [List.getElem?_append_left inside] at found
      have literal := survives edit List.mem_cons_self (by omega) (by omega)
      exact List.mem_append_left _
        ((mem_kept (ends window edit replaced)).mpr ⟨List.mem_of_getElem? found, literal⟩)
    · rw [List.getElem?_append_right (by omega)] at found
      refine List.mem_append_right _ (List.mem_cons_of_mem _ (inductionHypothesis found ?_))
      intro other member
      have later := survives other (List.mem_cons_of_mem _ member)
      rwa [stops, Nat.add_assoc, Nat.add_sub_cancel' (Nat.not_lt.mp inside)]

theorem Spliced.mem_call (result : Spliced replaces place original edits rewritten) :
    ∀ edit ∈ edits, edit.call ∈ rewritten := by
  induction result with
  | done => simp
  | keep other rest inductionHypothesis =>
    exact fun edit member => List.mem_cons_of_mem _ (inductionHypothesis edit member)
  | @replace window original rewritten edit edits replaced stops rest inductionHypothesis =>
    intro other member
    rcases List.mem_cons.mp member with rfl | member
    · simp
    · exact List.mem_append_right _ (List.mem_cons_of_mem _ (inductionHypothesis other member))

theorem Spliced.mem_cases (result : Spliced replaces place original edits rewritten)
    (ends : Ends replaces) (member : instruction ∈ rewritten) :
    (∃ index, original[index]? = some instruction ∧
      Survives edits (place + index) instruction) ∨ ∃ edit ∈ edits, instruction = edit.call := by
  induction result with
  | done => cases member
  | @keep place original rewritten edits other rest inductionHypothesis =>
    rcases List.mem_cons.mp member with rfl | member
    · refine .inl ⟨0, rfl, fun edit listed starts stops => ?_⟩
      have after := (rest.le_start edit listed).1
      omega
    · rcases inductionHypothesis member with ⟨index, found, survives⟩ | called
      · refine .inl ⟨index + 1, found, ?_⟩
        rwa [Nat.add_comm index, ← Nat.add_assoc]
      · exact .inr called
  | @replace window original rewritten edit edits replaced stops rest inductionHypothesis =>
    rcases List.mem_append.mp member with here | member
    · obtain ⟨inside, literal⟩ := (mem_kept (ends window edit replaced)).mp here
      obtain ⟨index, found⟩ := List.mem_iff_getElem?.mp inside
      refine .inl ⟨index, ?_, fun _ _ _ _ => literal⟩
      rw [List.getElem?_append_left (List.getElem?_eq_some_iff.mp found).1, found]
    · rcases List.mem_cons.mp member with rfl | member
      · exact .inr ⟨edit, List.mem_cons_self, rfl⟩
      · rcases inductionHypothesis member with ⟨index, found, survives⟩ | ⟨other, listed, same⟩
        · refine .inl ⟨window.length + index, ?_, ?_⟩
          · rw [List.getElem?_append_right (Nat.le_add_right _ _), Nat.add_sub_cancel_left, found]
          · intro other listed
            rw [← Nat.add_assoc, ← stops]
            rcases List.mem_cons.mp listed with rfl | listed
            · intro _ before
              omega
            · exact survives other listed
        · exact .inr ⟨other, List.mem_cons_of_mem _ listed, same⟩

theorem Spliced.pairwise (result : Spliced replaces place original edits rewritten) :
    edits.Pairwise fun left right => left.stop ≤ right.start := by
  induction result with
  | done => exact .nil
  | keep other rest inductionHypothesis => exact inductionHypothesis
  | replace replaced stops rest inductionHypothesis =>
    exact .cons (fun other member => (rest.le_start other member).1) inductionHypothesis

variable {blocks : List Block} {label : Label} {block : Block}

theorem Rejoined.mem {fresh : Label} {instructions : List Instruction}
    (joined : Rejoined blocks fresh block instructions) (present : block ∈ blocks)
    (member : instruction ∈ instructions) : ∃ part ∈ blocks, instruction ∈ part.instructions := by
  induction joined with
  | whole stays => exact ⟨_, present, member⟩
  | split jumps successors isFresh found handlers rest inductionHypothesis =>
    rcases List.mem_append.mp member with here | later
    · exact ⟨_, present, by simp [jumps, here]⟩
    · exact inductionHypothesis (List.mem_of_getElem? found) later

theorem mem_chain_cases {handlers : List Handler} {successors : List Label}
    (first : List Instruction) (rest : List (List Instruction))
    (member : instruction ∈ (chain handlers successors label first rest).1 ∨
      ∃ part ∈ (chain handlers successors label first rest).2.2, instruction ∈ part.instructions) :
    instruction = jump ∨ instruction ∈ (first :: rest).flatten := by
  induction rest generalizing label first with
  | nil => exact .inr (by simpa [chain] using member)
  | cons next rest inductionHypothesis =>
    rw [chain] at member
    have later : (instruction ∈ (chain handlers successors (label + 1) next rest).1 ∨
        ∃ part ∈ (chain handlers successors (label + 1) next rest).2.2,
          instruction ∈ part.instructions) →
        instruction = jump ∨ instruction ∈ (first :: next :: rest).flatten := fun member =>
      (inductionHypothesis next member).imp_right fun found => by
        rw [List.flatten_cons]
        exact List.mem_append_right _ found
    rcases member with here | ⟨part, listed, inside⟩
    · rcases List.mem_append.mp here with here | last
      · exact .inr (by simp [here])
      · exact .inl (List.mem_singleton.mp last)
    · rcases List.mem_cons.mp listed with rfl | listed
      · exact later (.inl inside)
      · exact later (.inr ⟨part, listed, inside⟩)

theorem mem_rewriteBlock_cases {part : Block}
    (listed : part = (rewriteBlock edits label block).1 ∨
      part ∈ (rewriteBlock edits label block).2)
    (edited : edits ≠ []) (inside : instruction ∈ part.instructions) :
    instruction = jump ∨ instruction ∈ spliced 0 edits block.instructions := by
  unfold rewriteBlock at listed
  unfold spliced
  rcases cut : splice 0 edits block.instructions with ⟨segments, final⟩
  simp only [cut] at listed ⊢
  have joined : (segments ++ if final.isEmpty then [] else [final]).flatten =
      segments.flatten ++ final := by
    cases final <;> simp
  split at listed
  · split at listed
    · rename_i none
      cases edits with
      | nil => exact absurd rfl edited
      | cons edit edits =>
        rw [splice] at cut
        cases cut
        simp at none
    · rename_i first rest some
      rw [← joined, some]
      rcases listed with rfl | listed
      · exact mem_chain_cases first rest (.inl inside)
      · exact mem_chain_cases first rest (.inr ⟨part, listed, inside⟩)
  · rcases listed with rfl | listed
    · exact .inr inside
    · cases listed

theorem mem_rewriteBlocks_cases {list : List Block} {part : Block}
    (listed : part ∈ (rewriteBlocks edits label list).1 ∨
      part ∈ (rewriteBlocks edits label list).2)
    (inside : instruction ∈ part.instructions) :
    instruction = jump ∨
      ∃ block ∈ list, instruction ∈ spliced 0 (editsOf edits block.label) block.instructions := by
  induction list generalizing label with
  | nil => simp [rewriteBlocks] at listed
  | cons head list inductionHypothesis =>
    have later {label : Label} (listed : part ∈ (rewriteBlocks edits label list).1 ∨
        part ∈ (rewriteBlocks edits label list).2) :
        instruction = jump ∨ ∃ block ∈ head :: list,
          instruction ∈ spliced 0 (editsOf edits block.label) block.instructions := by
      refine (inductionHypothesis listed).imp_right ?_
      rintro ⟨block, present, found⟩
      exact ⟨block, List.mem_cons_of_mem _ present, found⟩
    rw [rewriteBlocks] at listed
    cases edited : editsOf edits head.label with
    | nil =>
      simp only [edited] at listed
      rcases listed with listed | listed
      · rcases List.mem_cons.mp listed with rfl | listed
        · exact .inr ⟨part, List.mem_cons_self, by rw [edited]; exact inside⟩
        · exact later (.inl listed)
      · exact later (.inr listed)
    | cons edit rest =>
      simp only [edited, List.mem_cons, List.mem_append] at listed
      have here (listed : part = (rewriteBlock (edit :: rest) label head).1 ∨
          part ∈ (rewriteBlock (edit :: rest) label head).2) :
          instruction = jump ∨ ∃ block ∈ head :: list,
            instruction ∈ spliced 0 (editsOf edits block.label) block.instructions :=
        (mem_rewriteBlock_cases listed (by simp) inside).imp_right fun found =>
          ⟨head, List.mem_cons_self, edited ▸ found⟩
      rcases listed with (rfl | listed) | listed | listed
      · exact here (.inl rfl)
      · exact later (.inl listed)
      · exact here (.inr listed)
      · exact later (.inr listed)

end Outlining.Rewriting
