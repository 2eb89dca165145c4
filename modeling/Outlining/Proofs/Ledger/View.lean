import Mathlib.Algebra.Order.Ring.Nat
import Outlining.Proofs.Ledger

namespace Outlining.Ledger

open Outlining.Bytecode

variable {ledger next : Ledger} {template known : Template} {site : Site} {index : TemplateIndex}

def templates (ledger : Ledger) : List Template := ledger.entries.map (·.template)

/-- The sites listed under a number, if there is a list. -/
def listed? (ledger : Ledger) (index : TemplateIndex) : Option (List Site) :=
  ledger.entries[index]?.bind (·.sites)

theorem template?_eq (ledger : Ledger) (index : TemplateIndex) :
    ledger.template? index = ledger.templates[index]? := (List.getElem?_map ..).symm

theorem sites_eq (ledger : Ledger) (index : TemplateIndex) :
    ledger.sites index = (ledger.listed? index).getD [] := by
  cases found : ledger.entries[index]? <;> simp [sites, listed?, found]

theorem indexOf?_eq_some_iff (distinct : ledger.templates.Nodup) :
    ledger.indexOf? template = some index ↔ ledger.template? index = some template := by
  have sound {index : TemplateIndex} (known : ledger.indexOf? template = some index) :
      ledger.template? index = some template := by
    obtain ⟨before, entry, after, split, rfl, rfl⟩ := entries_of_indexOf? known
    simp [template?, split]
  refine ⟨sound, fun found => ?_⟩
  rw [template?_eq] at found
  cases known : ledger.indexOf? template with
  | none => exact absurd (List.mem_of_getElem? found) (indexOf?_eq_none_iff.mp known)
  | some other =>
    have foundToo := sound known
    rw [template?_eq, ← found] at foundToo
    obtain ⟨inside, _⟩ := List.getElem?_eq_some_iff.mp found
    exact congrArg some ((List.getElem?_inj inside distinct).mp foundToo.symm).symm

/-- A ledger with other sites under a number. -/
def revise (ledger : Ledger) (index : TemplateIndex)
    (change : Option (List Site) → Option (List Site)) : Ledger :=
  ⟨ledger.entries.modify index fun entry => { entry with sites := change entry.sites }⟩

theorem templates_revise (ledger : Ledger) (index : TemplateIndex)
    (change : Option (List Site) → Option (List Site)) :
    (ledger.revise index change).templates = ledger.templates := by
  apply List.ext_getElem?
  intro place
  rw [templates, templates, List.getElem?_map, List.getElem?_map, revise]
  by_cases here : index = place
  · subst here
    rw [List.getElem?_modify_eq]
    cases ledger.entries[index]? <;> rfl
  · rw [List.getElem?_modify_ne _ _ here]

theorem listed?_revise (inside : index < ledger.templates.length)
    (change : Option (List Site) → Option (List Site)) (other : TemplateIndex) :
    (ledger.revise index change).listed? other =
      if other = index then change (ledger.listed? index) else ledger.listed? other := by
  rw [templates, List.length_map] at inside
  by_cases same : other = index
  · subst same
    rw [if_pos rfl, listed?, listed?, revise, List.getElem?_modify_eq,
      List.getElem?_eq_getElem inside]
    rfl
  · rw [if_neg same, listed?, listed?, revise, List.getElem?_modify_ne _ _ (Ne.symm same)]

/-- A ledger interns a template by telling its number or by giving it the next one. -/
theorem intern_cases (distinct : ledger.templates.Nodup) (template : Template) :
    (ledger.template? (ledger.intern template).2 = some template ∧
      (ledger.intern template).1 = ledger) ∨
    (template ∉ ledger.templates ∧ (ledger.intern template).2 = ledger.templates.length ∧
      (ledger.intern template).1.templates = ledger.templates ++ [template] ∧
      (ledger.intern template).1.listed? = ledger.listed?) := by
  cases known : ledger.indexOf? template with
  | some index =>
    left
    simp only [intern, known]
    exact ⟨(indexOf?_eq_some_iff distinct).mp known, trivial⟩
  | none =>
    right
    simp only [intern, known]
    refine ⟨indexOf?_eq_none_iff.mp known, by simp [templates], by simp [templates], ?_⟩
    funext other
    rw [listed?, listed?, List.getElem?_append]
    split
    · rfl
    · next outside =>
      rw [List.getElem?_eq_none (Nat.le_of_not_lt outside)]
      cases other - ledger.entries.length <;> rfl

theorem nodup_templates_intern (distinct : ledger.templates.Nodup) (template : Template) :
    (ledger.intern template).1.templates.Nodup := by
  obtain ⟨_, same⟩ | ⟨new, _, templates, _⟩ := intern_cases distinct template
  · rw [same]
    exact distinct
  · rw [templates, ← List.concat_eq_append]
    exact distinct.concat new

theorem template?_intern_iff (distinct : ledger.templates.Nodup) :
    (ledger.intern template).1.template? index = some known ↔
      ledger.template? index = some known ∨
        (template, (ledger.intern template).2) = (known, index) := by
  rw [Prod.mk.injEq]
  obtain ⟨found, same⟩ | ⟨_, next, templates, _⟩ := intern_cases distinct template
  · rw [same]
    constructor
    · exact Or.inl
    · rintro (foundToo | ⟨rfl, rfl⟩)
      · exact foundToo
      · exact found
  · rw [next, template?_eq, template?_eq, templates]
    obtain before | rfl | behind := Nat.lt_trichotomy index ledger.templates.length
    · simp [List.getElem?_append_left before, Nat.ne_of_gt before]
    · simp
    · have outside : (ledger.templates ++ [template]).length ≤ index := by
        rw [List.length_append]
        exact behind
      simp [List.getElem?_eq_none outside, List.getElem?_eq_none (Nat.le_of_lt behind),
        Nat.ne_of_lt behind]

theorem listed?_intern (distinct : ledger.templates.Nodup) (template : Template) :
    (ledger.intern template).1.listed? = ledger.listed? := by
  obtain ⟨_, same⟩ | ⟨_, _, _, listed⟩ := intern_cases distinct template
  · rw [same]
  · exact listed

theorem template?_revise (ledger : Ledger) (index : TemplateIndex)
    (change : Option (List Site) → Option (List Site)) (other : TemplateIndex) :
    (ledger.revise index change).template? other = ledger.template? other := by
  rw [template?_eq, template?_eq, templates_revise]

theorem record_eq (ledger : Ledger) (template : Template) (site : Site) :
    ledger.record template site = ((ledger.intern template).1.revise (ledger.intern template).2
      fun sites => some (sites.getD [] ++ [site]), (ledger.intern template).2) := rfl

section Record

variable (distinct : ledger.templates.Nodup) (template : Template) (site : Site)
include distinct

theorem nodup_templates_record : (ledger.record template site).1.templates.Nodup := by
  rw [record_eq, templates_revise]
  exact nodup_templates_intern distinct template

theorem template?_record_iff : (ledger.record template site).1.template? index = some known ↔
    ledger.template? index = some known ∨
      (template, (ledger.record template site).2) = (known, index) := by
  rw [record_eq, template?_revise]
  exact template?_intern_iff distinct

theorem listed?_record (other : TemplateIndex) :
    (ledger.record template site).1.listed? other =
      if other = (ledger.record template site).2 then
        some ((ledger.listed? other).getD [] ++ [site])
      else ledger.listed? other := by
  have inside : (ledger.intern template).2 < (ledger.intern template).1.templates.length := by
    have found := (template?_intern_iff distinct).mpr (.inr (Eq.refl (template, _)))
    rw [template?_eq] at found
    exact (List.getElem?_eq_some_iff.mp found).1
  rw [record_eq, listed?_revise inside, listed?_intern distinct]
  split
  · next same => rw [same]
  · rfl

end Record

theorem strike?_eq_some (struck : ledger.strike? index site = some next) :
    ∃ listed, ledger.listed? index = some listed ∧ site ∈ listed ∧
      index < ledger.templates.length ∧
      next = ledger.revise index (Option.map (·.erase site)) := by
  obtain ⟨present, rfl⟩ := strike?_eq_some_iff.mp struck
  rw [sites_eq] at present
  cases listed : ledger.listed? index with
  | none => simp [listed] at present
  | some sites =>
    rw [listed, Option.getD_some] at present
    refine ⟨sites, rfl, present, ?_, rfl⟩
    obtain ⟨entry, found, _⟩ := Option.bind_eq_some_iff.mp listed
    rw [templates, List.length_map]
    exact (List.getElem?_eq_some_iff.mp found).1

theorem templates_strike (struck : ledger.strike? index site = some next) :
    next.templates = ledger.templates := by
  obtain ⟨_, _, _, _, rfl⟩ := strike?_eq_some struck
  exact templates_revise ..

theorem template?_strike (struck : ledger.strike? index site = some next)
    (other : TemplateIndex) : next.template? other = ledger.template? other := by
  rw [template?_eq, templates_strike struck, template?_eq]

theorem listed?_strike (struck : ledger.strike? index site = some next) (other : TemplateIndex) :
    next.listed? other =
      if other = index then (ledger.listed? other).map (·.erase site)
      else ledger.listed? other := by
  obtain ⟨_, _, _, inside, rfl⟩ := strike?_eq_some struck
  rw [listed?_revise inside]
  split
  · next same => rw [same]
  · rfl

theorem total_eq_sum (ledger : Ledger) :
    ledger.total = ((List.range ledger.templates.length).map ledger.remaining).sum := by
  have each : (List.range ledger.templates.length).map ledger.remaining =
      ledger.entries.map LedgerEntry.remaining := by
    apply List.ext_getElem
    · simp [templates]
    · intro index _ inside
      rw [List.length_map] at inside
      simp [remaining, sites_of_getElem? (List.getElem?_eq_getElem inside), LedgerEntry.remaining]
  rw [each, List.sum_eq_foldr, List.foldr_map]
  rfl

theorem isEmpty_iff : ledger.isEmpty = true ↔ ∀ index, ledger.listed? index = none := by
  rw [isEmpty, List.all_eq_true]
  constructor
  · intro unused index
    apply Option.bind_eq_none_iff.mpr
    intro entry found
    exact Option.isNone_iff_eq_none.mp (unused entry (List.mem_of_getElem? found))
  · intro unused entry member
    obtain ⟨index, found⟩ := List.mem_iff_getElem?.mp member
    exact Option.isNone_iff_eq_none.mpr (Option.bind_eq_none_iff.mp (unused index) entry found)

theorem mem_select_iff_listed {threshold : Nat} : (index, template) ∈ ledger.select threshold ↔
    ledger.template? index = some template ∧ ledger.listed? index ≠ none ∧
      threshold ≤ ledger.remaining index := by
  rw [mem_select_iff, template?, listed?, remaining]
  cases found : ledger.entries[index]? with
  | none => simp
  | some entry =>
    rw [sites_of_getElem? found]
    simp [LedgerEntry.remaining, Option.isSome_iff_ne_none]

end Outlining.Ledger
