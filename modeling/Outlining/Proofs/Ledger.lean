import Mathlib.Data.List.Nodup
import Outlining.Proofs.Template.Order

namespace Outlining

variable {ledger next : Ledger} {template : Template} {site : Site} {index : TemplateIndex}
  {recorded : List (Template × Site)}

/-- The sites of a template among those recorded. -/
def sitesOf (recorded : List (Template × Site)) (template : Template) : List Site :=
  (recorded.filter (·.1 == template)).map (·.2)

@[simp] theorem sitesOf_append (earlier later : List (Template × Site)) (template : Template) :
    sitesOf (earlier ++ later) template = sitesOf earlier template ++ sitesOf later template := by
  simp [sitesOf]

theorem sitesOf_cons_of_eq (template : Template) (site : Site)
    (recorded : List (Template × Site)) :
    sitesOf ((template, site) :: recorded) template = site :: sitesOf recorded template := by
  simp [sitesOf]

theorem sitesOf_cons_of_ne {other : Template} (differs : other ≠ template) (site : Site)
    (recorded : List (Template × Site)) :
    sitesOf ((other, site) :: recorded) template = sitesOf recorded template := by
  simp [sitesOf, differs]

theorem sitesOf_append_of_ne {other : Template} (differs : other ≠ template) (site : Site)
    (recorded : List (Template × Site)) :
    sitesOf (recorded ++ [(other, site)]) template = sitesOf recorded template := by
  rw [sitesOf_append, sitesOf_cons_of_ne differs]
  exact List.append_nil _

theorem length_sitesOf_perm {again : List (Template × Site)} (permuted : again.Perm recorded)
    (template : Template) : (sitesOf again template).length = (sitesOf recorded template).length :=
  ((permuted.filter _).map _).length_eq

theorem sitesOf_eq_nil_iff :
    sitesOf recorded template = [] ↔ template ∉ recorded.map Prod.fst := by
  simp [sitesOf, List.filter_eq_nil_iff]
  constructor
  · intro none site member
    exact none _ _ member rfl
  · rintro none other site member rfl
    exact none site member

namespace Ledger

def recordAll (ledger : Ledger) (recorded : List (Template × Site)) : Ledger :=
  recorded.foldl (fun ledger entry => (ledger.record entry.1 entry.2).1) ledger

/-- One entry for each template recorded, with its sites. -/
structure Accounts (ledger : Ledger) (recorded : List (Template × Site)) : Prop where
  distinct : (ledger.entries.map (·.template)).Nodup
  covers : ∀ template, template ∈ ledger.entries.map (·.template) ↔
    template ∈ recorded.map Prod.fst
  sites : ∀ entry ∈ ledger.entries, entry.sites = some (sitesOf recorded entry.template)

theorem accounts_empty : Accounts .empty [] := ⟨.nil, fun _ => Iff.rfl, by simp [empty]⟩

private theorem modify_length {α : Type} (before : List α) (item : α) (after : List α)
    (change : α → α) :
    (before ++ item :: after).modify before.length change = before ++ change item :: after := by
  simp [List.modify_eq_take_cons_drop]

theorem entries_of_indexOf? (known : ledger.indexOf? template = some index) :
    ∃ before entry after, ledger.entries = before ++ entry :: after ∧ before.length = index ∧
      entry.template = template := by
  obtain ⟨inside, same, _⟩ := List.findIdx?_eq_some_iff_getElem.mp known
  refine ⟨ledger.entries.take index, ledger.entries[index], ledger.entries.drop (index + 1), ?_,
    List.length_take_of_le (Nat.le_of_lt inside), by simpa using same⟩
  simp

theorem entries_record_of_known (known : ledger.indexOf? template = some index) (site : Site) :
    ∃ before entry after, ledger.entries = before ++ entry :: after ∧ entry.template = template ∧
      (ledger.record template site).1.entries =
        before ++ { entry with sites := some (entry.sites.getD [] ++ [site]) } :: after := by
  obtain ⟨before, entry, after, split, rfl, same⟩ := entries_of_indexOf? known
  refine ⟨before, entry, after, split, same, ?_⟩
  simp only [record, intern, known, split]
  exact modify_length before entry after _

theorem entries_record_of_new (new : ledger.indexOf? template = none) (site : Site) :
    (ledger.record template site).1.entries = ledger.entries ++ [⟨template, some [site]⟩] := by
  simp only [record, intern, new]
  exact modify_length ledger.entries ⟨template, none⟩ [] _

theorem indexOf?_eq_none_iff :
    ledger.indexOf? template = none ↔ template ∉ ledger.entries.map (·.template) := by
  rw [indexOf?, List.findIdx?_eq_none_iff]
  simp

private theorem Accounts.record_of_new (accounts : Accounts ledger recorded)
    (unknown : ledger.indexOf? template = none) (site : Site) :
    Accounts (ledger.record template site).1 (recorded ++ [(template, site)]) := by
  have entries := entries_record_of_new unknown site
  have new := indexOf?_eq_none_iff.mp unknown
  refine ⟨?_, fun other => ?_, fun entry member => ?_⟩
  · rw [entries, List.map_append, List.nodup_append]
    refine ⟨accounts.distinct, List.nodup_singleton _, ?_⟩
    rintro other present _ last rfl
    obtain rfl : other = template := by simpa using last
    exact new present
  · simp only [entries, List.map_append, List.mem_append, accounts.covers other]
    simp
  · rw [entries] at member
    rcases List.mem_append.mp member with old | member
    · have differs : template ≠ entry.template := by
        rintro rfl
        exact new (List.mem_map_of_mem old)
      rw [accounts.sites entry old, sitesOf_append_of_ne differs]
    · obtain rfl := List.mem_singleton.mp member
      have none : sitesOf recorded template = [] := by
        rw [sitesOf_eq_nil_iff, ← accounts.covers]
        exact new
      rw [sitesOf_append, none, sitesOf_cons_of_eq]
      rfl

/-- A further site of a template is added to its entry, and no other entry has the template. -/
private theorem Accounts.record_of_known (accounts : Accounts ledger recorded)
    (known : ledger.indexOf? template = some index) (site : Site) :
    Accounts (ledger.record template site).1 (recorded ++ [(template, site)]) := by
  obtain ⟨before, entry, after, split, rfl, entries⟩ := entries_record_of_known known site
  have templates : (ledger.record entry.template site).1.entries.map (·.template) =
      ledger.entries.map (·.template) := by
    rw [entries, split]
    simp
  refine ⟨templates ▸ accounts.distinct, fun other => ?_, fun other member => ?_⟩
  · rw [templates, accounts.covers]
    have present : entry.template ∈ recorded.map Prod.fst := by
      rw [← accounts.covers, split]
      simp
    simp only [List.map_append, List.mem_append, List.map_cons, List.map_nil, List.mem_singleton]
    exact ⟨.inl, fun either => either.elim id fun same => same ▸ present⟩
  · have distinct := accounts.distinct
    rw [split, List.map_append, List.map_cons, List.nodup_middle, List.nodup_cons] at distinct
    have old {other : LedgerEntry} (member : other ∈ before ++ after) :
        other.sites = some (sitesOf (recorded ++ [(entry.template, site)]) other.template) := by
      have differs : entry.template ≠ other.template := by
        intro same
        apply distinct.1
        rw [same, ← List.map_append]
        exact List.mem_map_of_mem member
      have listed : other ∈ ledger.entries := by
        rw [split]
        rcases List.mem_append.mp member with member | member <;> simp [member]
      rw [accounts.sites other listed, sitesOf_append_of_ne differs]
    rw [entries] at member
    rcases List.mem_append.mp member with member | member
    · exact old (List.mem_append_left _ member)
    · rcases List.mem_cons.mp member with rfl | member
      · rw [accounts.sites entry (by simp [split])]
        simp [sitesOf]
      · exact old (List.mem_append_right _ member)

theorem Accounts.record (accounts : Accounts ledger recorded) (template : Template)
    (site : Site) :
    Accounts (ledger.record template site).1 (recorded ++ [(template, site)]) := by
  cases known : ledger.indexOf? template with
  | none => exact accounts.record_of_new known site
  | some index => exact accounts.record_of_known known site

theorem Accounts.recordAll (accounts : Accounts ledger recorded)
    (more : List (Template × Site)) :
    Accounts (ledger.recordAll more) (recorded ++ more) := by
  induction more generalizing ledger recorded with
  | nil => simpa [Ledger.recordAll] using accounts
  | cons entry more inductionHypothesis =>
    have rest := inductionHypothesis (accounts.record entry.1 entry.2)
    rw [List.append_assoc] at rest
    exact rest

/-- A ledger into which sites were recorded accounts for them. -/
theorem accounts_recordAll (recorded : List (Template × Site)) :
    Accounts (Ledger.empty.recordAll recorded) recorded :=
  accounts_empty.recordAll recorded

theorem Accounts.isEmpty_iff (accounts : Accounts ledger recorded) :
    ledger.isEmpty = true ↔ recorded = [] := by
  rw [isEmpty, List.all_eq_true]
  constructor
  · intro unused
    cases recorded with
    | nil => rfl
    | cons first rest =>
      have present := (accounts.covers first.1).mpr (by simp)
      obtain ⟨entry, member, _⟩ := List.mem_map.mp present
      have none := unused entry member
      rw [accounts.sites entry member] at none
      cases none
  · rintro rfl entry member
    have present := (accounts.covers entry.template).mp (List.mem_map_of_mem member)
    cases present

theorem mem_select_iff {threshold : Nat} :
    (index, template) ∈ ledger.select threshold ↔
      ∃ entry, ledger.entries[index]? = some entry ∧ entry.template = template ∧
        entry.sites.isSome = true ∧ threshold ≤ entry.remaining := by
  simp only [select, List.mem_mergeSort, List.mem_map, List.mem_filter, Prod.exists,
    List.mem_zipIdx_iff_getElem?, Bool.and_eq_true, decide_eq_true_eq, Prod.mk.injEq]
  constructor
  · rintro ⟨entry, place, ⟨found, sites, enough⟩, rfl, same⟩
    exact ⟨entry, found, same, sites, enough⟩
  · rintro ⟨entry, found, same, sites, enough⟩
    exact ⟨entry, index, ⟨found, sites, enough⟩, rfl, same⟩

/-- A template is selected if something was recorded for it and it has enough sites. -/
theorem Accounts.mem_map_select_iff (accounts : Accounts ledger recorded) {threshold : Nat} :
    template ∈ (ledger.select threshold).map Prod.snd ↔
      template ∈ recorded.map Prod.fst ∧ threshold ≤ (sitesOf recorded template).length := by
  rw [← accounts.covers, List.mem_map]
  constructor
  · rintro ⟨entry, selected, rfl⟩
    obtain ⟨listed, found, same, _, enough⟩ := mem_select_iff.mp selected
    have member := List.mem_of_getElem? found
    rw [LedgerEntry.remaining, accounts.sites listed member, same] at enough
    exact ⟨same ▸ List.mem_map_of_mem member, enough⟩
  · rintro ⟨present, enough⟩
    obtain ⟨listed, member, rfl⟩ := List.mem_map.mp present
    obtain ⟨place, found⟩ := List.mem_iff_getElem?.mp member
    refine ⟨(place, listed.template), mem_select_iff.mpr ⟨listed, found, rfl, ?_, ?_⟩, rfl⟩
    · rw [accounts.sites listed member]
      rfl
    · rw [LedgerEntry.remaining, accounts.sites listed member]
      exact enough

private theorem nodup_frequent (distinct : (ledger.entries.map (·.template)).Nodup)
    (frequent : LedgerEntry × Nat → Bool) :
    (((ledger.entries.zipIdx.filter frequent).map fun (entry, index) =>
      (index, entry.template)).map Prod.snd).Nodup := by
  rw [← List.zipIdx_map_fst 0 ledger.entries, List.map_map] at distinct
  rw [List.map_map]
  exact distinct.sublist (List.filter_sublist.map _)

theorem pairwise_select_of_distinct (distinct : (ledger.entries.map (·.template)).Nodup)
    (threshold : Nat) :
    (ledger.select threshold).Pairwise fun left right => compare left.2 right.2 = .lt :=
  Template.pairwise_mergeSort (nodup_frequent distinct _)

/-- Distinct templates are selected, in the order in which a holder takes them. -/
theorem Accounts.inOrder_select (accounts : Accounts ledger recorded) (threshold : Nat) :
    Holder.inOrder (ledger.select threshold) = true :=
  Holder.inOrder_mergeSort (nodup_frequent accounts.distinct _)

theorem Accounts.pairwise_select (accounts : Accounts ledger recorded) (threshold : Nat) :
    (ledger.select threshold).Pairwise fun left right => compare left.2 right.2 = .lt :=
  pairwise_select_of_distinct accounts.distinct threshold

theorem sites_of_getElem? {entry : LedgerEntry} (found : ledger.entries[index]? = some entry) :
    ledger.sites index = entry.sites.getD [] := by
  rw [sites, found]

theorem Accounts.map_remaining_indexOf? (accounts : Accounts ledger recorded)
    (template : Template) : (ledger.indexOf? template).map ledger.remaining =
      if template ∈ recorded.map Prod.fst then some (sitesOf recorded template).length
      else none := by
  simp only [← accounts.covers]
  cases known : ledger.indexOf? template with
  | none =>
    rw [if_neg (indexOf?_eq_none_iff.mp known)]
    rfl
  | some index =>
    obtain ⟨before, entry, after, split, rfl, rfl⟩ := entries_of_indexOf? known
    have found : ledger.entries[before.length]? = some entry := by simp [split]
    rw [if_pos (List.mem_map_of_mem (List.mem_of_getElem? found)), Option.map_some, remaining,
      sites_of_getElem? found, accounts.sites entry (List.mem_of_getElem? found)]
    rfl

section Reordered

variable {other : Ledger} {again : List (Template × Site)}
  (accounts : Accounts ledger recorded) (others : Accounts other again)
  (permuted : again.Perm recorded)
include accounts others permuted

/-- The order in which sites were recorded does not show in their number. -/
theorem Accounts.remaining_eq (template : Template) :
    (other.indexOf? template).map other.remaining =
      (ledger.indexOf? template).map ledger.remaining := by
  simp only [others.map_remaining_indexOf?, accounts.map_remaining_indexOf?,
    (permuted.map _).mem_iff, length_sitesOf_perm permuted]

/-- The order in which sites were recorded does not show in the templates selected, but for their
numbers. -/
theorem Accounts.map_select_eq (threshold : Nat) :
    (other.select threshold).map Prod.snd = (ledger.select threshold).map Prod.snd := by
  refine Template.eq_of_mem_iff (List.pairwise_map.mpr (others.pairwise_select threshold))
    (List.pairwise_map.mpr (accounts.pairwise_select threshold)) fun template => ?_
  rw [others.mem_map_select_iff, accounts.mem_map_select_iff, (permuted.map _).mem_iff,
    length_sitesOf_perm permuted]

end Reordered

/-- The sites under a number are those recorded for its template. -/
theorem Accounts.sites_select (accounts : Accounts ledger recorded) {threshold : Nat}
    (chosen : (index, template) ∈ ledger.select threshold) :
    ledger.sites index = sitesOf recorded template := by
  obtain ⟨entry, found, rfl, _⟩ := mem_select_iff.mp chosen
  rw [sites_of_getElem? found, accounts.sites entry (List.mem_of_getElem? found)]
  rfl

/-- A number stands for one template only, and a template has one number only. -/
theorem Accounts.index_eq_iff (accounts : Accounts ledger recorded) {threshold : Nat}
    {left right : TemplateIndex × Template} (leftChosen : left ∈ ledger.select threshold)
    (rightChosen : right ∈ ledger.select threshold) : left.1 = right.1 ↔ left.2 = right.2 := by
  obtain ⟨entry, found, same, _⟩ := mem_select_iff.mp leftChosen
  obtain ⟨other, foundToo, sameToo, _⟩ := mem_select_iff.mp rightChosen
  constructor
  · intro indices
    rw [indices, foundToo] at found
    cases found
    exact same.symm.trans sameToo
  · intro templates
    have leftImage : (ledger.entries.map (·.template))[left.1]? = some left.2 := by
      simp [found, same]
    have rightImage : (ledger.entries.map (·.template))[right.1]? = some left.2 := by
      simp [foundToo, sameToo, templates]
    exact (List.getElem?_inj (List.getElem?_eq_some_iff.mp leftImage).1 accounts.distinct).mp
      (leftImage.trans rightImage.symm)

theorem strike?_eq_some_iff : ledger.strike? index site = some next ↔
    site ∈ ledger.sites index ∧ next = ⟨ledger.entries.modify index fun entry =>
      { entry with sites := entry.sites.map (·.erase site) }⟩ := by
  simp [strike?, eq_comm]

theorem sites_strike (struck : ledger.strike? index site = some next) (other : TemplateIndex) :
    next.sites other =
      if other = index then (ledger.sites index).erase site else ledger.sites other := by
  obtain ⟨_, rfl⟩ := strike?_eq_some_iff.mp struck
  by_cases same : other = index
  · subst same
    rw [if_pos rfl, sites, sites, List.getElem?_modify_eq]
    cases ledger.entries[other]? with
    | none => rfl
    | some entry => cases sites : entry.sites <;> simp [sites]
  · rw [if_neg same, sites, sites, List.getElem?_modify_ne _ _ (Ne.symm same)]

end Ledger

end Outlining
