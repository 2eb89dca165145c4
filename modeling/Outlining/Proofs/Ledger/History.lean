import Mathlib.Data.List.Dedup
import Outlining.Proofs.Ledger.View
import Outlining.Proofs.Pipeline.Striking

/-! A ledger serves one request after the other, and answers each of them. The requests with their
answers are its history: they say which template got which number, and which sites were recorded and
struck out under a number. All that the ledger tells later follows from them. -/
namespace Outlining.Ledger

open Outlining.Bytecode

inductive Request where
  | intern (template : Template)
  | record (template : Template) (site : Site)
  | strike (index : TemplateIndex) (site : Site)
deriving DecidableEq

/-- A request with its answer. -/
inductive Event where
  | interned (template : Template) (index : TemplateIndex)
  | recorded (template : Template) (index : TemplateIndex) (site : Site)
  | struck (index : TemplateIndex) (site : Site)
  | missed (index : TemplateIndex) (site : Site)
deriving DecidableEq

def Event.request : Event → Request
  | .interned template _ => .intern template
  | .recorded template _ site => .record template site
  | .struck index site => .strike index site
  | .missed index site => .strike index site

/-- The template and its number, if they were told. -/
def Event.numbering? : Event → Option (Template × TemplateIndex)
  | .interned template index => some (template, index)
  | .recorded template index _ => some (template, index)
  | _ => none

/-- The site, if one was recorded under a number. -/
def Event.siteRecorded? (index : TemplateIndex) : Event → Option Site
  | .recorded _ other site => if other = index then some site else none
  | _ => none

/-- The site, if one was struck out under a number. -/
def Event.siteStruck? (index : TemplateIndex) : Event → Option Site
  | .struck other site => if other = index then some site else none
  | _ => none

/-- A ledger with the requests it served and the answers it gave. -/
structure Chronicle where
  ledger : Ledger
  events : List Event
deriving DecidableEq

def Request.answer (ledger : Ledger) : Request → Ledger × Event
  | .intern template =>
    let (next, index) := ledger.intern template
    (next, .interned template index)
  | .record template site =>
    let (next, index) := ledger.record template site
    (next, .recorded template index site)
  | .strike index site =>
    match ledger.strike? index site with
    | some next => (next, .struck index site)
    | none => (ledger, .missed index site)

def Chronicle.serve (chronicle : Chronicle) (request : Request) : Chronicle :=
  let (next, event) := request.answer chronicle.ledger
  ⟨next, chronicle.events ++ [event]⟩

/-- What came of the requests, beginning with an empty ledger. -/
def after (requests : List Request) : Chronicle := requests.foldl Chronicle.serve ⟨.empty, []⟩

variable {ledger next : Ledger} {events : List Event} {template : Template} {site : Site}
  {index : TemplateIndex}

/-- The templates seen, with the numbers told for them. -/
def numberings (events : List Event) : List (Template × TemplateIndex) :=
  events.filterMap Event.numbering?

def seen (events : List Event) : List Template := (numberings events).map Prod.fst

def recordedUnder (events : List Event) (index : TemplateIndex) : List Site :=
  events.filterMap (Event.siteRecorded? index)

def struckUnder (events : List Event) (index : TemplateIndex) : List Site :=
  events.filterMap (Event.siteStruck? index)

/-- What a ledger tells, as its history has it. -/
structure Tells (ledger : Ledger) (events : List Event) : Prop where
  inverse : ∀ template index,
    ledger.indexOf? template = some index ↔ ledger.template? index = some template
  known : ∀ template, (∃ index, ledger.indexOf? template = some index) ↔ template ∈ seen events
  numbers : ∀ index, (∃ template, ledger.template? index = some template) ↔
    index < (seen events).dedup.length
  numbered : ∀ template index, ledger.template? index = some template ↔
    (template, index) ∈ numberings events
  /-- A site can be struck out if it was recorded more often than struck out. -/
  strikes : ∀ index site, (∃ next, ledger.strike? index site = some next) ↔
    (struckUnder events index).count site < (recordedUnder events index).count site
  /-- Striking a site out takes one copy of it away, and leaves the templates as they are. -/
  takes : ∀ index site next, ledger.strike? index site = some next →
    (∀ other place, (next.sites other).count place + [(index, site)].count (other, place) =
      (ledger.sites other).count place) ∧
    (∀ other, next.template? other = ledger.template? other) ∧
    next.indexOf? = ledger.indexOf?
  remaining : ∀ index, ledger.remaining index + (struckUnder events index).length =
    (recordedUnder events index).length
  total : ledger.total =
    ((List.range (seen events).dedup.length).map ledger.remaining).sum
  isEmpty : ledger.isEmpty = true ↔ ∀ template index site, .recorded template index site ∉ events
  /-- A template is selected if something was recorded for it and enough of it is left. -/
  selects : ∀ threshold index template, (index, template) ∈ ledger.select threshold ↔
    (∃ site, .recorded template index site ∈ events) ∧ threshold ≤ ledger.remaining index
  ascends : ∀ threshold, (ledger.select threshold).Pairwise fun left right =>
    compare left.2 right.2 = .lt
  distinct : ∀ threshold, ((ledger.select threshold).map Prod.snd).Nodup

section Events

theorem filterMap_append_singleton {Item : Type} (read : Event → Option Item)
    (events : List Event) (event : Event) :
    (events ++ [event]).filterMap read = events.filterMap read ++ (read event).toList := by
  rw [List.filterMap_append]
  cases told : read event <;> simp [told]

theorem numberings_append (events : List Event) (event : Event) :
    numberings (events ++ [event]) = numberings events ++ event.numbering?.toList :=
  filterMap_append_singleton _ events event

theorem recordedUnder_append (events : List Event) (event : Event) (index : TemplateIndex) :
    recordedUnder (events ++ [event]) index =
      recordedUnder events index ++ (event.siteRecorded? index).toList :=
  filterMap_append_singleton _ events event

theorem struckUnder_append (events : List Event) (event : Event) (index : TemplateIndex) :
    struckUnder (events ++ [event]) index =
      struckUnder events index ++ (event.siteStruck? index).toList :=
  filterMap_append_singleton _ events event

theorem mem_seen_iff :
    template ∈ seen events ↔ ∃ index, (template, index) ∈ numberings events := by
  simp [seen]

theorem mem_numberings_of_recorded (recorded : .recorded template index site ∈ events) :
    (template, index) ∈ numberings events :=
  List.mem_filterMap.mpr ⟨_, recorded, rfl⟩

theorem mem_recordedUnder_iff : site ∈ recordedUnder events index ↔
    ∃ template, .recorded template index site ∈ events := by
  rw [recordedUnder, List.mem_filterMap]
  constructor
  · rintro ⟨event, member, told⟩
    cases event with
    | recorded template other place =>
      obtain ⟨rfl, rfl⟩ : other = index ∧ place = site := by simpa [Event.siteRecorded?] using told
      exact ⟨template, member⟩
    | interned | struck | missed => cases told
  · rintro ⟨template, member⟩
    exact ⟨_, member, if_pos rfl⟩

end Events

/-- A ledger agrees with its history. -/
structure Reflects (ledger : Ledger) (events : List Event) : Prop where
  distinct : ledger.templates.Nodup
  numbered : ∀ template index, ledger.template? index = some template ↔
    (template, index) ∈ numberings events
  listed : ∀ index, ledger.listed? index = none ↔ recordedUnder events index = []
  /-- What is left and what was struck out are together what was recorded. -/
  balances : ∀ index, ((ledger.listed? index).getD [] ++ struckUnder events index).Perm
    (recordedUnder events index)

namespace Reflects

theorem of_empty : Reflects .empty [] where
  distinct := .nil
  numbered _ _ := by simp [template?, empty, numberings]
  listed _ := by simp [listed?, empty, recordedUnder]
  balances _ := .nil

section Step

variable (reflects : Reflects ledger events)
include reflects

theorem intern (template : Template) : Reflects (ledger.intern template).1
    (events ++ [.interned template (ledger.intern template).2]) where
  distinct := nodup_templates_intern reflects.distinct template
  numbered known index := by
    rw [template?_intern_iff reflects.distinct, reflects.numbered, numberings_append]
    simp [Event.numbering?, eq_comm]
  listed index := by
    rw [listed?_intern reflects.distinct, reflects.listed, recordedUnder_append]
    simp [Event.siteRecorded?]
  balances index := by
    rw [listed?_intern reflects.distinct, struckUnder_append, recordedUnder_append]
    simpa [Event.siteStruck?, Event.siteRecorded?] using reflects.balances index

theorem record (template : Template) (site : Site) : Reflects (ledger.record template site).1
    (events ++ [.recorded template (ledger.record template site).2 site]) where
  distinct := nodup_templates_record reflects.distinct template site
  numbered known other := by
    rw [template?_record_iff reflects.distinct, reflects.numbered, numberings_append]
    simp [Event.numbering?, eq_comm]
  listed other := by
    rw [listed?_record reflects.distinct, recordedUnder_append, Event.siteRecorded?]
    by_cases here : other = (ledger.record template site).2
    · simp [← here]
    · simpa [here, Ne.symm here] using reflects.listed other
  balances other := by
    have balance := reflects.balances other
    rw [listed?_record reflects.distinct, recordedUnder_append, struckUnder_append,
      Event.siteRecorded?]
    by_cases here : other = (ledger.record template site).2
    · simp only [← here, ↓reduceIte, Option.getD_some, Event.siteStruck?, Option.toList_none,
        List.append_nil, Option.toList_some, List.append_assoc, List.singleton_append]
      exact (List.perm_middle.trans (balance.cons site)).trans
        (List.perm_append_singleton site _).symm
    · simpa [here, Ne.symm here, Event.siteStruck?] using balance

theorem strike (struck : ledger.strike? index site = some next) :
    Reflects next (events ++ [.struck index site]) where
  distinct := by
    rw [templates_strike struck]
    exact reflects.distinct
  numbered known other := by
    rw [template?_strike struck, reflects.numbered, numberings_append]
    simp [Event.numbering?]
  listed other := by
    rw [listed?_strike struck, recordedUnder_append]
    by_cases here : other = index
    · simpa [here, Event.siteRecorded?] using reflects.listed index
    · simpa [here, Event.siteRecorded?] using reflects.listed other
  balances other := by
    have balance := reflects.balances other
    rw [listed?_strike struck, recordedUnder_append, struckUnder_append, Event.siteStruck?]
    by_cases here : other = index
    · subst here
      obtain ⟨sites, known, present, _⟩ := strike?_eq_some struck
      rw [known, Option.getD_some] at balance
      simp only [↓reduceIte, known, Option.map_some, Option.getD_some, Event.siteRecorded?,
        Option.toList_none, List.append_nil, Option.toList_some]
      -- the copy that is erased from the list is the one that was struck out last
      have moved : (sites.erase site ++ (struckUnder events other ++ [site])).Perm
          (site :: sites.erase site ++ struckUnder events other) := by
        rw [← List.append_assoc]
        exact List.perm_append_singleton site _
      have restored := (List.perm_cons_erase present).symm.append_right (struckUnder events other)
      exact (moved.trans restored).trans balance
    · simpa [here, Ne.symm here, Event.siteRecorded?] using balance

theorem miss (index : TemplateIndex) (site : Site) :
    Reflects ledger (events ++ [.missed index site]) where
  distinct := reflects.distinct
  numbered known other := by
    rw [numberings_append]
    simpa [Event.numbering?] using reflects.numbered known other
  listed other := by
    rw [recordedUnder_append]
    simpa [Event.siteRecorded?] using reflects.listed other
  balances other := by
    rw [recordedUnder_append, struckUnder_append]
    simpa [Event.siteRecorded?, Event.siteStruck?] using reflects.balances other

theorem answer (request : Request) :
    Reflects (request.answer ledger).1 (events ++ [(request.answer ledger).2]) := by
  cases request with
  | intern template => exact reflects.intern template
  | record template site => exact reflects.record template site
  | strike index site =>
    rw [Request.answer]
    cases struck : ledger.strike? index site with
    | none => exact reflects.miss index site
    | some next => exact reflects.strike struck

end Step

theorem foldl {chronicle : Chronicle} (reflects : Reflects chronicle.ledger chronicle.events)
    (requests : List Request) :
    Reflects (requests.foldl Chronicle.serve chronicle).ledger
      (requests.foldl Chronicle.serve chronicle).events := by
  induction requests generalizing chronicle with
  | nil => exact reflects
  | cons request requests inductionHypothesis =>
    exact inductionHypothesis (reflects.answer request)

section Told

variable (reflects : Reflects ledger events)
include reflects

theorem indexOf?_iff :
    ledger.indexOf? template = some index ↔ ledger.template? index = some template :=
  indexOf?_eq_some_iff reflects.distinct

theorem mem_templates_iff : template ∈ ledger.templates ↔ template ∈ seen events := by
  rw [List.mem_iff_getElem?, mem_seen_iff]
  apply exists_congr
  intro index
  rw [← template?_eq]
  exact reflects.numbered template index

theorem length_templates : ledger.templates.length = (seen events).dedup.length := by
  apply List.Perm.length_eq
  apply (List.perm_ext_iff_of_nodup reflects.distinct (List.nodup_dedup _)).mpr
  intro template
  rw [List.mem_dedup]
  exact reflects.mem_templates_iff

theorem count_law (index : TemplateIndex) (site : Site) :
    (ledger.sites index).count site + (struckUnder events index).count site =
      (recordedUnder events index).count site := by
  rw [sites_eq, ← List.count_append]
  exact (reflects.balances index).count_eq site

theorem strikes_iff : (∃ next, ledger.strike? index site = some next) ↔
    (struckUnder events index).count site < (recordedUnder events index).count site := by
  have law := reflects.count_law index site
  have present : (∃ next, ledger.strike? index site = some next) ↔ site ∈ ledger.sites index := by
    simp only [strike?_eq_some_iff, exists_and_left, exists_eq, and_true]
  rw [present, ← List.count_pos_iff]
  omega

theorem remaining_law (index : TemplateIndex) :
    ledger.remaining index + (struckUnder events index).length =
      (recordedUnder events index).length := by
  rw [remaining, sites_eq, ← List.length_append]
  exact (reflects.balances index).length_eq

theorem isEmpty_iff :
    ledger.isEmpty = true ↔ ∀ template index site, .recorded template index site ∉ events := by
  rw [Ledger.isEmpty_iff]
  constructor
  · intro unused template index site recorded
    have none := (reflects.listed index).mp (unused index)
    have member := mem_recordedUnder_iff.mpr ⟨template, recorded⟩
    rw [none] at member
    cases member
  · intro unused index
    apply (reflects.listed index).mpr
    apply List.eq_nil_iff_forall_not_mem.mpr
    intro site member
    obtain ⟨template, recorded⟩ := mem_recordedUnder_iff.mp member
    exact unused template index site recorded

/-- Something was recorded for a template if it has its number and a list of sites. -/
theorem recorded_iff : (∃ site, .recorded template index site ∈ events) ↔
    ledger.template? index = some template ∧ ledger.listed? index ≠ none := by
  rw [ne_eq, reflects.listed]
  constructor
  · rintro ⟨site, recorded⟩
    refine ⟨(reflects.numbered template index).mpr (mem_numberings_of_recorded recorded), ?_⟩
    exact List.ne_nil_of_mem (mem_recordedUnder_iff.mpr ⟨template, recorded⟩)
  · rintro ⟨found, some⟩
    obtain ⟨site, member⟩ := List.exists_mem_of_ne_nil _ some
    obtain ⟨other, recorded⟩ := mem_recordedUnder_iff.mp member
    have same := (reflects.numbered other index).mpr (mem_numberings_of_recorded recorded)
    obtain rfl := Option.some.inj (found.symm.trans same)
    exact ⟨site, recorded⟩

theorem mem_select_iff {threshold : Nat} : (index, template) ∈ ledger.select threshold ↔
    (∃ site, .recorded template index site ∈ events) ∧ threshold ≤ ledger.remaining index := by
  rw [mem_select_iff_listed, reflects.recorded_iff, and_assoc]

theorem takes (struck : ledger.strike? index site = some next) :
    (∀ other place, (next.sites other).count place + [(index, site)].count (other, place) =
      (ledger.sites other).count place) ∧
    (∀ other, next.template? other = ledger.template? other) ∧
    next.indexOf? = ledger.indexOf? := by
  refine ⟨count_sites_strike struck, template?_strike struck, ?_⟩
  funext template
  apply Option.ext
  intro other
  rw [(reflects.strike struck).indexOf?_iff, reflects.indexOf?_iff, template?_strike struck]

theorem tells : Tells ledger events where
  inverse _ _ := reflects.indexOf?_iff
  known template := by
    rw [← reflects.mem_templates_iff, List.mem_iff_getElem?]
    simp only [reflects.indexOf?_iff, template?_eq]
  numbers index := by
    rw [← reflects.length_templates]
    simp [template?_eq, List.getElem?_eq_some_iff]
  numbered := reflects.numbered
  strikes _ _ := reflects.strikes_iff
  takes _ _ _ := reflects.takes
  remaining := reflects.remaining_law
  total := by
    rw [← reflects.length_templates]
    exact ledger.total_eq_sum
  isEmpty := reflects.isEmpty_iff
  selects _ _ _ := reflects.mem_select_iff
  ascends := pairwise_select_of_distinct reflects.distinct
  distinct threshold :=
    Template.nodup_of_pairwise
      (List.pairwise_map.mpr (pairwise_select_of_distinct reflects.distinct threshold))

end Told

end Reflects

theorem reflects_after (requests : List Request) :
    Reflects (after requests).ledger (after requests).events :=
  Reflects.foldl .of_empty requests

theorem request_answer (ledger : Ledger) (request : Request) :
    (request.answer ledger).2.request = request := by
  cases request with
  | intern template => rfl
  | record template site => rfl
  | strike index site =>
    rw [Request.answer]
    cases ledger.strike? index site <;> rfl

theorem events_foldl (requests : List Request) (chronicle : Chronicle) :
    ∃ later, (requests.foldl Chronicle.serve chronicle).events = chronicle.events ++ later ∧
      later.map Event.request = requests := by
  induction requests generalizing chronicle with
  | nil => exact ⟨[], (List.append_nil _).symm, rfl⟩
  | cons request requests inductionHypothesis =>
    obtain ⟨later, events, same⟩ := inductionHypothesis (chronicle.serve request)
    refine ⟨(request.answer chronicle.ledger).2 :: later, ?_, ?_⟩
    · rw [List.foldl_cons, events, Chronicle.serve, List.append_assoc]
      rfl
    · rw [List.map_cons, request_answer, same]

theorem events_after_strike (requests : List Request) (index : TemplateIndex) (site : Site) :
    (after (requests ++ [.strike index site])).events = (after requests).events ++
      [if (struckUnder (after requests).events index).count site <
          (recordedUnder (after requests).events index).count site
        then .struck index site else .missed index site] := by
  have possible : (∃ next, (after requests).ledger.strike? index site = some next) ↔ _ :=
    (reflects_after requests).strikes_iff
  rw [after, List.foldl_append, ← after, List.foldl_cons, List.foldl_nil, Chronicle.serve]
  apply congrArg fun event => (after requests).events ++ [event]
  rw [Request.answer]
  cases struck : (after requests).ledger.strike? index site with
  | some next => exact (if_pos (possible.mp ⟨next, struck⟩)).symm
  | none =>
    refine (if_neg fun enough => ?_).symm
    obtain ⟨next, other⟩ := possible.mpr enough
    rw [struck] at other
    cases other

/-- A ledger answers every request; a site is struck out as often as it was recorded; a number
stands for the same template ever after; and all else that the ledger tells follows from what was
answered. -/
theorem tells_of_events (requests : List Request) :
    (after requests).events.map Event.request = requests ∧
      Tells (after requests).ledger (after requests).events ∧
      (∀ index site, (after (requests ++ [.strike index site])).events =
        (after requests).events ++
          [if (struckUnder (after requests).events index).count site <
              (recordedUnder (after requests).events index).count site
            then .struck index site else .missed index site]) ∧
      ∀ more index template, (after requests).ledger.template? index = some template →
        (after (requests ++ more)).ledger.template? index = some template := by
  refine ⟨?_, (reflects_after requests).tells, events_after_strike requests, ?_⟩
  · obtain ⟨later, events, same⟩ := events_foldl requests ⟨.empty, []⟩
    rw [after, events]
    exact same
  · intro more index template found
    obtain ⟨later, events, _⟩ := events_foldl more (after requests)
    rw [after, ← List.foldl_append, ← after] at events
    apply ((reflects_after (requests ++ more)).numbered template index).mpr
    rw [events, numberings, List.filterMap_append]
    exact List.mem_append_left _ (((reflects_after requests).numbered template index).mp found)

/-- The template of a window that only makes an instance. -/
def allocating (cls : Descriptor) : Template := ⟨[.allocate cls], [], [], cls⟩

/-- A site recorded twice and struck out three times. -/
def overdrawn : List Request :=
  let site : Site := ⟨0, 0, 0, 2⟩
  [.intern (allocating ⟨"LB;"⟩), .record (allocating ⟨"LA;"⟩) site,
    .record (allocating ⟨"LA;"⟩) site, .strike 1 site, .strike 1 site, .strike 1 site]

/-- The site is gone, but its template is still selected; the one that was only interned is not. -/
theorem tells_of_overdrawn :
    (after overdrawn).ledger.template? 0 = some (allocating ⟨"LB;"⟩) ∧
      (after (overdrawn ++ [.record (allocating ⟨"LC;"⟩) ⟨0, 0, 0, 2⟩])).ledger.template? 0 =
        some (allocating ⟨"LB;"⟩) ∧
      (after overdrawn).events.drop 3 =
        [.struck 1 ⟨0, 0, 0, 2⟩, .struck 1 ⟨0, 0, 0, 2⟩, .missed 1 ⟨0, 0, 0, 2⟩] ∧
      (after overdrawn).ledger.select 0 = [(1, allocating ⟨"LA;"⟩)] ∧
      (after overdrawn).ledger.isEmpty = false := by
  have known : (after overdrawn).ledger.template? 0 = some (allocating ⟨"LB;"⟩) := by decide
  exact ⟨known, (tells_of_events overdrawn).2.2.2 _ 0 _ known, by decide, by cbv, by decide⟩

end Outlining.Ledger
