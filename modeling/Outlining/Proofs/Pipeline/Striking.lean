import Mathlib.Data.List.Count
import Outlining.Proofs.Pipeline.Rewrite

namespace Outlining.Ledger

open Outlining.Bytecode Outlining.Window

variable {ledger next : Ledger} {index : TemplateIndex} {site : Site}
  {strikes : List (TemplateIndex × Site)} {recorded : List (Template × Site)}

theorem count_sites_strike (struck : ledger.strike? index site = some next)
    (other : TemplateIndex) (place : Site) :
    (next.sites other).count place + [(index, site)].count (other, place) =
      (ledger.sites other).count place := by
  have present := (strike?_eq_some_iff.mp struck).1
  rw [sites_strike struck other]
  by_cases here : other = index
  · subst here
    rw [if_pos rfl]
    by_cases same : place = site
    · subst same
      have some := List.count_pos_iff.mpr present
      rw [List.count_erase_self, List.count_singleton_self]
      omega
    · rw [List.count_erase_of_ne same, Nat.add_eq_left]
      simp [Ne.symm same]
  · rw [if_neg here, Nat.add_eq_left]
    simp [Ne.symm here]

/-- Striking sites out takes each of them away as often as it is struck out. -/
theorem count_sites_strikeAll (struck : ledger.strikeAll? strikes = some next)
    (index : TemplateIndex) (site : Site) :
    (next.sites index).count site + strikes.count (index, site) =
      (ledger.sites index).count site := by
  induction strikes generalizing ledger with
  | nil =>
    cases struck
    rfl
  | cons strike strikes inductionHypothesis =>
    obtain ⟨other, place⟩ := strike
    obtain ⟨middle, first, rest⟩ := Option.bind_eq_some_iff.mp struck
    have later := inductionHypothesis rest
    have now := count_sites_strike first index site
    rw [← List.singleton_append, List.count_append]
    omega

/-- Sites can be struck out if none of them is struck out more often than it is there. -/
theorem exists_strikeAll_iff : (∃ next, ledger.strikeAll? strikes = some next) ↔
    ∀ index site, strikes.count (index, site) ≤ (ledger.sites index).count site := by
  constructor
  · rintro ⟨next, struck⟩ index site
    have counted := count_sites_strikeAll struck index site
    omega
  · intro enough
    induction strikes generalizing ledger with
    | nil => exact ⟨ledger, rfl⟩
    | cons strike strikes inductionHypothesis =>
      obtain ⟨index, site⟩ := strike
      have present : site ∈ ledger.sites index := by
        apply List.count_pos_iff.mp
        have least := enough index site
        rw [List.count_cons_self] at least
        omega
      obtain ⟨middle, first⟩ : ∃ middle, ledger.strike? index site = some middle :=
        ⟨_, strike?_eq_some_iff.mpr ⟨present, rfl⟩⟩
      have rest : ∃ next, strikeAll? middle strikes = some next := by
        apply inductionHypothesis
        intro other place
        have now := count_sites_strike first other place
        have all := enough other place
        rw [← List.singleton_append, List.count_append] at all
        omega
      rw [strikeAll?, first, Option.bind_some]
      exact rest

theorem total_cons (entry : LedgerEntry) (entries : List LedgerEntry) :
    total ⟨entry :: entries⟩ = entry.remaining + total ⟨entries⟩ := rfl

theorem total_append (first second : List LedgerEntry) :
    total ⟨first ++ second⟩ = total ⟨first⟩ + total ⟨second⟩ := by
  induction first with
  | nil => simp [total]
  | cons entry first inductionHypothesis =>
    rw [List.cons_append, total_cons, total_cons, inductionHypothesis, Nat.add_assoc]

/-- A change of one entry changes the total by what it changes in the entry. -/
theorem total_modify {entries : List LedgerEntry} {entry : LedgerEntry}
    (found : entries[index]? = some entry) (change : LedgerEntry → LedgerEntry) :
    total ⟨entries.modify index change⟩ + entry.remaining =
      total ⟨entries⟩ + (change entry).remaining := by
  induction entries generalizing index with
  | nil => cases found
  | cons first entries inductionHypothesis =>
    cases index with
    | zero =>
      cases found
      rw [List.modify_zero_cons, total_cons, total_cons]
      omega
    | succ index =>
      rw [List.getElem?_cons_succ] at found
      have rest := inductionHypothesis found
      rw [List.modify_succ_cons, total_cons, total_cons]
      omega

theorem total_strike (struck : ledger.strike? index site = some next) :
    next.total + 1 = ledger.total := by
  obtain ⟨present, rfl⟩ := strike?_eq_some_iff.mp struck
  cases found : ledger.entries[index]? with
  | none => simp [sites, found] at present
  | some entry =>
    rw [sites_of_getElem? found] at present
    have changed := total_modify found fun entry =>
      { entry with sites := entry.sites.map (·.erase site) }
    cases known : entry.sites with
    | none => simp [known] at present
    | some sites =>
      rw [known, Option.getD_some] at present
      have some := List.length_pos_of_mem present
      simp only [LedgerEntry.remaining, known, Option.map_some, Option.getD_some,
        List.length_erase_of_mem present] at changed
      change _ = total ⟨ledger.entries⟩
      omega

theorem total_strikeAll (struck : ledger.strikeAll? strikes = some next) :
    next.total + strikes.length = ledger.total := by
  induction strikes generalizing ledger with
  | nil =>
    cases struck
    rfl
  | cons strike strikes inductionHypothesis =>
    obtain ⟨middle, first, rest⟩ := Option.bind_eq_some_iff.mp struck
    have later := inductionHypothesis rest
    have now := total_strike first
    rw [List.length_cons]
    omega

theorem total_record (ledger : Ledger) (template : Template) (site : Site) :
    (ledger.record template site).1.total = ledger.total + 1 := by
  cases known : ledger.indexOf? template with
  | none =>
    have entries := entries_record_of_new known site
    calc (ledger.record template site).1.total
        = total ⟨ledger.entries ++ [⟨template, some [site]⟩]⟩ := by rw [← entries]
      _ = ledger.total + 1 := by
        rw [total_append]
        rfl
  | some index =>
    obtain ⟨before, entry, after, split, _, entries⟩ := entries_record_of_known known site
    calc (ledger.record template site).1.total
        = total ⟨before ++ { entry with sites := some (entry.sites.getD [] ++ [site]) } :: after⟩ :=
          by rw [← entries]
      _ = total ⟨before ++ entry :: after⟩ + 1 := by
        rw [total_append, total_append, total_cons, total_cons]
        simp only [LedgerEntry.remaining, Option.getD_some, List.length_append,
          List.length_singleton]
        omega
      _ = ledger.total + 1 := by rw [← split]

theorem total_recordAll (ledger : Ledger) (recorded : List (Template × Site)) :
    (ledger.recordAll recorded).total = ledger.total + recorded.length := by
  induction recorded generalizing ledger with
  | nil => rfl
  | cons entry recorded inductionHypothesis =>
    have rest := inductionHypothesis (ledger.record entry.1 entry.2).1
    rw [total_record] at rest
    rw [List.length_cons, ← Nat.add_assoc, Nat.add_right_comm]
    exact rest

end Outlining.Ledger
