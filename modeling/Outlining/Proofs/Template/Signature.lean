import Mathlib.Algebra.Order.Ring.Nat
import Mathlib.Data.List.Basic
import Outlining.Template.Signature

namespace Outlining.Template

open Outlining.Bytecode

variable {template : Template} {arguments : Nat} {wiring : List (Operation × List Slot)}

theorem arity_eq_sum (template : Template) :
    template.arity = (template.operations.map (·.arity)).sum := by
  rw [arity, List.sum_eq_foldr, List.foldr_map]

/-- Whether a slot can be given a value, with so many arguments, after a value was produced or
not. -/
def Slot.IsFed (arguments : Nat) (written : Bool) : Slot → Prop
  | .temporary => written = true
  | .argument index => index < arguments

theorem slotFlaw?_eq_none_iff {written : Bool} {operation : Operation} {slot : Slot} :
    slotFlaw? arguments written operation slot = none ↔ slot.IsFed arguments written := by
  cases slot with
  | temporary => cases written <;> simp [slotFlaw?, Slot.IsFed]
  | argument index => simp [slotFlaw?, Slot.IsFed]

/-- Every slot can be given a value when its operation is reached. -/
def Fed (arguments : Nat) (written : Bool) (wiring : List (Operation × List Slot)) : Prop :=
  ∀ before operation slots after, wiring = before ++ (operation, slots) :: after →
    ∀ slot ∈ slots, slot.IsFed arguments (written || before.any (·.1.hasResult))

theorem fed_cons_iff {written : Bool} {operation : Operation} {slots : List Slot} :
    Fed arguments written ((operation, slots) :: wiring) ↔
      (∀ slot ∈ slots, slot.IsFed arguments written) ∧
        Fed arguments (written || operation.hasResult) wiring := by
  constructor
  · intro fed
    refine ⟨by simpa using fed [] operation slots wiring rfl, ?_⟩
    intro before other others after split
    have rest := fed ((operation, slots) :: before) other others after (by simp [split])
    simpa [Bool.or_assoc] using rest
  · rintro ⟨first, rest⟩ before other others after split
    cases before with
    | nil =>
      cases split
      simpa using first
    | cons entry before =>
      cases split
      simpa [Bool.or_assoc] using rest before other others after rfl

theorem wiringFlaw?_eq_none_iff {written : Bool} :
    wiringFlaw? arguments written wiring = none ↔ Fed arguments written wiring := by
  induction wiring generalizing written with
  | nil => simp [wiringFlaw?, Fed]
  | cons entry wiring inductionHypothesis =>
    obtain ⟨operation, slots⟩ := entry
    have first : slots.findSome? (slotFlaw? arguments written operation) = none ↔
        ∀ slot ∈ slots, slot.IsFed arguments written := by
      simp [List.findSome?_eq_none_iff, slotFlaw?_eq_none_iff]
    rw [fed_cons_iff, ← first, ← inductionHypothesis, wiringFlaw?]
    cases slots.findSome? (slotFlaw? arguments written operation) with
    | some flaw => simp
    | none => simp

/-- What it takes that a template can be wired up. -/
structure Wirable (template : Template) : Prop where
  covers : template.arity = template.slots.length
  passes : ∀ type ∈ template.argumentTypes, type.isVoid = false
  fed : Fed template.argumentTypes.length false template.wiring
  reads : ∀ index < template.argumentTypes.length, Slot.argument index ∈ template.slots
  returns : template.returnType.isVoid = false →
    ∃ operation ∈ template.operations, operation.hasResult = true

theorem flaw?_eq_none_iff : template.flaw? = none ↔ Wirable template := by
  have void : template.argumentTypes.find? (·.isVoid) = none ↔
      ∀ type ∈ template.argumentTypes, type.isVoid = false := by
    simp [List.find?_eq_none]
  have unread : (List.range template.argumentTypes.length).find?
      (fun index => !template.slots.contains (.argument index)) = none ↔
      ∀ index < template.argumentTypes.length, Slot.argument index ∈ template.slots := by
    simp [List.find?_eq_none]
  unfold flaw?
  by_cases covers : template.arity = template.slots.length
  · rw [if_neg (not_not_intro covers)]
    split
    · rename_i found
      refine ⟨fun flaw => (Option.some_ne_none _ flaw).elim, fun wirable => ?_⟩
      rw [void.mpr wirable.passes] at found
      cases found
    · rename_i passes
      split
      · rename_i flaw found
        refine ⟨fun flaw => (Option.some_ne_none _ flaw).elim, fun wirable => ?_⟩
        rw [wiringFlaw?_eq_none_iff.mpr wirable.fed] at found
        cases found
      · rename_i fed
        split
        · rename_i found
          refine ⟨fun flaw => (Option.some_ne_none _ flaw).elim, fun wirable => ?_⟩
          rw [unread.mpr wirable.reads] at found
          cases found
        · rename_i reads
          have returns : (if !template.returnType.isVoid && !template.operations.any (·.hasResult)
              then some Flaw.noResult else none) = none ↔
              (template.returnType.isVoid = false →
                ∃ operation ∈ template.operations, operation.hasResult = true) := by
            cases template.returnType.isVoid <;> simp
          rw [returns]
          exact ⟨fun returns => ⟨covers, void.mp passes, wiringFlaw?_eq_none_iff.mp fed,
            unread.mp reads, returns⟩, (·.returns)⟩
  · rw [if_pos covers]
    exact ⟨fun flaw => (Option.some_ne_none _ flaw).elim, fun wirable => absurd wirable.covers covers⟩

theorem signature_eq_ok_iff {prototype : Prototype} : template.signature = .ok prototype ↔
    Wirable template ∧ prototype = ⟨template.returnType, template.argumentTypes⟩ := by
  rw [← flaw?_eq_none_iff, signature]
  cases template.flaw? with
  | some flaw => simp
  | none => simp [eq_comm]

end Outlining.Template
