import Outlining.Holder
import Outlining.Proofs.Template.Body

namespace Outlining.Holder

open Outlining.Bytecode Outlining.Template

variable {type : Descriptor} {stem : String} {first number : Nat}
  {templates : List (TemplateIndex × Template)} {made : List (Outline × Method)}

/-- What is made for the template with the given number. -/
structure Made (type : Descriptor) (stem : String) (first number : Nat)
    (entry : TemplateIndex × Template) (result : Outline × Method) : Prop where
  wirable : Wirable entry.2
  inside : first + number < indexLimit
  outline : result.1 = ⟨entry.1, entry.2, ⟨type, stem ++ toString number,
    ⟨entry.2.returnType, entry.2.argumentTypes⟩⟩⟩
  body : entry.2.body result.1.reference (first + number) = .ok result.2

theorem outline_eq_ok_iff {entry : TemplateIndex × Template} {result : Outline × Method} :
    outline type stem first number entry.1 entry.2 = .ok result ↔
      Made type stem first number entry result := by
  unfold outline
  cases signed : entry.2.signature with
  | error flaw =>
    refine ⟨nofun, fun made => ?_⟩
    rw [signature_eq_ok_iff.mpr ⟨made.wirable, rfl⟩] at signed
    cases signed
  | ok prototype =>
    obtain ⟨wirable, rfl⟩ := signature_eq_ok_iff.mp signed
    dsimp only
    by_cases exceeded : indexLimit ≤ first + number
    · rw [if_pos exceeded]
      exact ⟨nofun, fun made => absurd made.inside (Nat.not_lt.mpr exceeded)⟩
    · rw [if_neg exceeded]
      have inside : first + number < indexLimit := Nat.not_le.mp exceeded
      cases written : entry.2.body ⟨type, stem ++ toString number,
          ⟨entry.2.returnType, entry.2.argumentTypes⟩⟩ (first + number) with
      | error flaw =>
        refine ⟨nofun, fun made => ?_⟩
        have body := made.body
        rw [made.outline, written] at body
        cases body
      | ok method =>
        constructor
        · intro done
          cases done
          exact ⟨wirable, inside, rfl, written⟩
        · intro made
          obtain ⟨outline, other⟩ := result
          have body := made.body
          obtain rfl : outline = _ := made.outline
          rw [written] at body
          cases body
          rfl

/-- Every outline is made for the template at its place. -/
theorem made_of_outlines (built : outlines type stem first number templates = .ok made)
    (place : Nat) : (∀ result, made[place]? = some result → ∃ entry, templates[place]? = some entry ∧
      Made type stem first (number + place) entry result) ∧ made.length = templates.length := by
  induction templates generalizing number made place with
  | nil =>
    cases built
    exact ⟨nofun, rfl⟩
  | cons entry templates inductionHypothesis =>
    obtain ⟨index, template⟩ := entry
    unfold outlines at built
    cases one : outline type stem first number index template with
    | error fault =>
      rw [one] at built
      cases built
    | ok result =>
      rw [one] at built
      cases others : outlines type stem first (number + 1) templates with
      | error fault =>
        rw [others] at built
        cases built
      | ok rest =>
        rw [others] at built
        cases built
        refine ⟨fun result found => ?_, by simp [(inductionHypothesis others 0).2]⟩
        cases place with
        | zero =>
          cases found
          exact ⟨_, rfl, outline_eq_ok_iff.mp one⟩
        | succ place =>
          have rest := (inductionHypothesis others place).1 result (by simpa using found)
          simpa [Nat.add_assoc, Nat.add_comm 1] using rest

/-- What is made for a template, but for the number of the template. -/
def unnumbered (result : Outline × Method) : (Template × Reference) × Method :=
  ((result.1.template, result.1.reference), result.2)

theorem map_unnumbered_outline (index other : TemplateIndex) (template : Template) :
    (outline type stem first number index template).map unnumbered =
      (outline type stem first number other template).map unnumbered := by
  unfold outline
  split
  · rfl
  · dsimp only
    split
    · rfl
    · split
      · rfl
      · rfl

private theorem map_unnumbered_outlines_cons (entry : TemplateIndex × Template)
    (templates : List (TemplateIndex × Template)) :
    (outlines type stem first number (entry :: templates)).map (List.map unnumbered) =
      ((outline type stem first number entry.1 entry.2).map unnumbered).bind fun result =>
        ((outlines type stem first (number + 1) templates).map (List.map unnumbered)).map
          (result :: ·) := by
  obtain ⟨index, template⟩ := entry
  rw [outlines]
  cases outline type stem first number index template with
  | error fault => rfl
  | ok result =>
    cases outlines type stem first (number + 1) templates with
    | error fault => rfl
    | ok results => rfl

/-- What is made does not depend on the numbers of the templates, but that each outline notes its
own; nor does the fault if not all can be made. -/
theorem map_unnumbered_outlines {others : List (TemplateIndex × Template)}
    (same : others.map Prod.snd = templates.map Prod.snd) :
    (outlines type stem first number others).map (List.map unnumbered) =
      (outlines type stem first number templates).map (List.map unnumbered) := by
  induction templates generalizing number others with
  | nil =>
    obtain rfl := List.map_eq_nil_iff.mp same
    rfl
  | cons entry templates inductionHypothesis =>
    obtain ⟨⟨index, template⟩, others, rfl, here, rest⟩ := List.map_eq_cons_iff.mp same
    obtain rfl : template = entry.2 := here
    rw [map_unnumbered_outlines_cons, map_unnumbered_outlines_cons, inductionHypothesis rest,
      map_unnumbered_outline index entry.1]

/-- The methods made do not depend on the numbers of the templates. -/
theorem outlines_congr {others : List (TemplateIndex × Template)}
    (same : others.map Prod.snd = templates.map Prod.snd)
    (built : outlines type stem first number templates = .ok made) :
    ∃ remade, outlines type stem first number others = .ok remade ∧
      remade.map (·.2) = made.map (·.2) := by
  have unchanged := @map_unnumbered_outlines type stem first number templates others same
  rw [built] at unchanged
  cases done : outlines type stem first number others with
  | error fault =>
    rw [done] at unchanged
    cases unchanged
  | ok remade =>
    rw [done] at unchanged
    refine ⟨remade, rfl, ?_⟩
    have results := congrArg (List.map Prod.snd) (Except.ok.inj unchanged)
    rwa [List.map_map, List.map_map] at results

/-- A holder can be built if every template can be wired up and has a body. -/
theorem exists_outlines
    (whole : ∀ entry ∈ templates, Wirable entry.2 ∧ ∀ reference index,
      ∃ method, entry.2.body reference index = .ok method)
    (few : first + number + templates.length ≤ indexLimit) :
    ∃ made, outlines type stem first number templates = .ok made := by
  induction templates generalizing number with
  | nil => exact ⟨[], rfl⟩
  | cons entry templates inductionHypothesis =>
    rw [List.length_cons] at few
    obtain ⟨index, template⟩ := entry
    obtain ⟨rest, others⟩ := @inductionHypothesis (number + 1)
      (fun other member => whole other (List.mem_cons_of_mem _ member)) (by omega)
    obtain ⟨wirable, bodies⟩ := whole (index, template) List.mem_cons_self
    obtain ⟨method, body⟩ := bodies ⟨type, stem ++ toString number,
      ⟨template.returnType, template.argumentTypes⟩⟩ (first + number)
    have one : outline type stem first number index template = .ok (⟨index, template, _⟩, method) :=
      outline_eq_ok_iff.mpr ⟨wirable, by omega, rfl, body⟩
    exact ⟨_, by
      rw [outlines, one]
      simp only [others]
      rfl⟩

theorem build_eq_ok_iff {holder : Holder} {all : List Outline} :
    build type stem first templates = .ok (holder, all) ↔
      inOrder templates = true ∧ ∃ made, outlines type stem first 0 templates = .ok made ∧
        holder = ⟨type, .object, "outline", made.map (·.2)⟩ ∧ all = made.map (·.1) := by
  unfold build
  cases ordered : inOrder templates with
  | false => simp
  | true =>
    cases outlines type stem first 0 templates with
    | error fault => simp
    | ok made => simp [eq_comm]

/-- Whether templates stand in their order does not depend on their numbers. -/
theorem inOrder_congr {others : List (TemplateIndex × Template)}
    (same : others.map Prod.snd = templates.map Prod.snd) : inOrder others = inOrder templates := by
  induction templates generalizing others with
  | nil =>
    obtain rfl := List.map_eq_nil_iff.mp same
    rfl
  | cons left templates inductionHypothesis =>
    obtain ⟨other, others, rfl, here, rest⟩ := List.map_eq_cons_iff.mp same
    cases templates with
    | nil =>
      obtain rfl := List.map_eq_nil_iff.mp rest
      rfl
    | cons right templates =>
      obtain ⟨next, others, rfl, there, _⟩ := List.map_eq_cons_iff.mp rest
      rw [inOrder, inOrder, inductionHypothesis rest, here, there]

/-- A holder, and the reference of the outline for each template. -/
def namesOf (built : Holder × List Outline) : Holder × List (Template × Reference) :=
  (built.1, built.2.map fun outline => (outline.template, outline.reference))

/-- The holder does not depend on the numbers of the templates, and neither do the names of the
outlines, or the fault if it cannot be built. -/
theorem map_namesOf_build {others : List (TemplateIndex × Template)}
    (same : others.map Prod.snd = templates.map Prod.snd) :
    (build type stem first others).map namesOf = (build type stem first templates).map namesOf := by
  have named (templates : List (TemplateIndex × Template)) :
      (build type stem first templates).map namesOf =
        if inOrder templates then
          ((outlines type stem first 0 templates).map (List.map unnumbered)).map fun made =>
            (⟨type, .object, "outline", made.map (·.2)⟩, made.map (·.1))
        else .error (.assertion .templateOrder) := by
    unfold build
    cases inOrder templates with
    | false => rfl
    | true =>
      cases outlines type stem first 0 templates with
      | error fault => rfl
      | ok made => simp [Except.map, namesOf, unnumbered]
  rw [named, named, inOrder_congr same, map_unnumbered_outlines same]

end Outlining.Holder
