import Outlining.Proofs.Window.Scan

namespace Outlining.Window

open Outlining.Bytecode Outlining.Template

variable {scope copy : Scope} {instruction : Instruction} {ahead : List Instruction}

/-- Whether two scopes with the same types and limits count the same reads of each value, and find
the same roots of what some instructions read. -/
structure Coincide (scope copy : Scope) (ahead : List Instruction) : Prop where
  agrees : scope.Agrees copy
  reads : ∀ value, copy.usage.reads value = scope.usage.reads value
  roots : ∀ instruction ∈ ahead, ∀ operand ∈ instruction.operands,
    copy.usage.root operand = scope.usage.root operand

theorem Coincide.of_cons (coincide : Coincide scope copy (instruction :: ahead)) :
    Coincide scope copy ahead :=
  ⟨coincide.agrees, coincide.reads,
    fun other member => coincide.roots other (List.mem_cons_of_mem _ member)⟩

section Step

variable (coincide : Coincide scope copy (instruction :: ahead))
include coincide

private theorem Coincide.twins : Twins scope copy instruction instruction :=
  ⟨rfl, rfl, List.map_congr_left (coincide.roots instruction List.mem_cons_self)⟩

private theorem Coincide.temporaryReads (window : Window) :
    window.temporaryReads copy instruction = window.temporaryReads scope instruction := by
  apply List.countP_congr
  intro operand read
  rw [readsTemporary, readsTemporary, coincide.roots instruction List.mem_cons_self operand read]

private theorem Coincide.admits (window : Window) :
    window.admits copy instruction = window.admits scope instruction := by
  apply (Alike.refl window).admits coincide.twins coincide.agrees
  rw [overwrites, overwrites, coincide.temporaryReads]

private theorem Coincide.takeRefinement (window : Window) :
    window.takeRefinement copy instruction = window.takeRefinement scope instruction := by
  unfold Window.takeRefinement
  cases refines : instruction.refinement? with
  | none => rfl
  | some pair =>
    obtain ⟨result, source⟩ := pair
    have same : window.readsTemporary copy source = window.readsTemporary scope source := by
      rw [readsTemporary, readsTemporary, coincide.roots instruction List.mem_cons_self source
        (operands_of_refinement? refines).1]
    simp only [same, coincide.reads]

private theorem Coincide.takeOperation (window : Window) :
    window.takeOperation copy instruction = window.takeOperation scope instruction := by
  have bound := (Alike.refl window).bound coincide.twins coincide.agrees
  rw [Window.bound, Window.bound] at bound
  unfold Window.takeOperation
  rw [bound, coincide.temporaryReads]
  dsimp only
  unfold takeResult Scope.produce Usage.isRead
  simp only [coincide.reads]

private theorem Coincide.take (window : Window) :
    window.take copy instruction = window.take scope instruction := by
  unfold Window.take
  rw [coincide.takeRefinement, coincide.takeOperation]

end Step

theorem Coincide.grow (coincide : Coincide scope copy ahead) (window : Window) :
    grow copy window ahead = grow scope window ahead := by
  induction ahead generalizing window with
  | nil => rfl
  | cons instruction ahead inductionHypothesis =>
    simp only [Window.grow, coincide.admits, coincide.take, coincide.agrees.limits,
      inductionHypothesis coincide.of_cons]

theorem Scope.Agrees.close (agrees : scope.Agrees copy) (label : Label) (start : Nat)
    (ahead : List Instruction) (window : Window) (last : Nat) :
    close copy label start ahead window last = close scope label start ahead window last := by
  simp only [Window.close, candidate, agrees.limits, agrees.registers]

theorem Coincide.scanAhead (coincide : Coincide scope copy ahead) (label : Label)
    (start skip : Nat) :
    scanAhead copy label start skip ahead = scanAhead scope label start skip ahead := by
  induction ahead generalizing start skip with
  | nil => cases skip <;> rfl
  | cons instruction ahead inductionHypothesis =>
    cases skip with
    | succ skip => exact inductionHypothesis coincide.of_cons (start + 1) skip
    | zero =>
      simp only [Window.scanAhead, coincide.grow, coincide.agrees.close,
        inductionHypothesis coincide.of_cons]

theorem Coincide.sketches (coincide : Coincide scope copy ahead) :
    sketches copy ahead = sketches scope ahead := by
  rw [Window.sketches, Window.sketches, coincide.scanAhead]

end Outlining.Window
