import Outlining.Proofs.Census
import Outlining.Proofs.Holder
import Outlining.Proofs.Ledger

/-! Workers may share a census and a ledger, and record what they find in any interleaving, one
record at a time. The numbers of the templates and the order of their sites tell the interleavings
apart. What is counted, selected and built does not. -/
namespace Outlining

open Outlining.Bytecode

/-- What a worker records: that a method contains a template, or where a template occurs. -/
inductive Record where
  | note (template : Template) (method : MethodIndex)
  | occurrence (template : Template) (site : Site)

/-- What is noted in a census. -/
def Record.note? : Record → Option (Template × MethodIndex)
  | .note template method => some (template, method)
  | .occurrence _ _ => none

/-- What is recorded in a ledger. -/
def Record.occurrence? : Record → Option (Template × Site)
  | .note _ _ => none
  | .occurrence template site => some (template, site)

/-- The tables that workers share. -/
structure Tables where
  census : Census
  ledger : Ledger
deriving DecidableEq

namespace Tables

variable {tables final left right : Tables} {workers : List (List Record)}

def empty : Tables := ⟨.empty, .empty⟩

def record (tables : Tables) : Record → Tables
  | .note template method => { tables with census := tables.census.record template method }
  | .occurrence template site => { tables with ledger := (tables.ledger.record template site).1 }

def recordAll (tables : Tables) (records : List Record) : Tables := records.foldl record tables

/-- Some worker makes the next of its records, again and again until no worker has any left. -/
inductive Runs : Tables → List (List Record) → Tables → Prop where
  | done {tables : Tables} {workers : List (List Record)}
      (idle : ∀ worker ∈ workers, worker = []) : Runs tables workers tables
  | step {tables final : Tables} {before after : List (List Record)} {record : Record}
      {rest : List Record} (later : Runs (tables.record record) (before ++ rest :: after) final) :
      Runs tables (before ++ (record :: rest) :: after) final

theorem exists_runs (tables : Tables) (workers : List (List Record)) :
    ∃ final, Runs tables workers final := by
  induction size : workers.flatten.length generalizing tables workers with
  | zero =>
    exact ⟨tables, .done (List.flatten_eq_nil_iff.mp (List.length_eq_zero_iff.mp size))⟩
  | succ count inductionHypothesis =>
    have some : ∃ worker ∈ workers, worker ≠ [] := by
      by_contra none
      push Not at none
      rw [List.flatten_eq_nil_iff.mpr none] at size
      cases size
    obtain ⟨worker, listed, busy⟩ := some
    obtain ⟨before, after, rfl⟩ := List.append_of_mem listed
    obtain ⟨record, rest, rfl⟩ := List.exists_cons_of_ne_nil busy
    have fewer : (before ++ rest :: after).flatten.length = count := by
      simp only [List.flatten_append, List.flatten_cons, List.length_append, List.length_cons]
        at size ⊢
      omega
    obtain ⟨final, later⟩ := inductionHypothesis (tables.record record) _ fewer
    exact ⟨final, .step later⟩

/-- A run makes all records of the workers in some order. -/
theorem Runs.exists_records (runs : Runs tables workers final) :
    ∃ records, records.Perm workers.flatten ∧ final = tables.recordAll records := by
  induction runs with
  | done idle => exact ⟨[], by rw [List.flatten_eq_nil_iff.mpr idle], rfl⟩
  | step _ inductionHypothesis =>
    obtain ⟨records, permuted, same⟩ := inductionHypothesis
    refine ⟨_ :: records, ?_, same⟩
    rw [List.flatten_append, List.flatten_cons] at permuted ⊢
    exact (permuted.cons _).trans List.perm_middle.symm

theorem census_recordAll (tables : Tables) (records : List Record) :
    (tables.recordAll records).census = tables.census.recordAll (records.filterMap (·.note?)) := by
  induction records generalizing tables with
  | nil => rfl
  | cons record records inductionHypothesis =>
    rw [recordAll, List.foldl_cons]
    refine (inductionHypothesis (tables.record record)).trans ?_
    cases record <;> rfl

theorem ledger_recordAll (tables : Tables) (records : List Record) :
    (tables.recordAll records).ledger =
      tables.ledger.recordAll (records.filterMap (·.occurrence?)) := by
  induction records generalizing tables with
  | nil => rfl
  | cons record records inductionHypothesis =>
    rw [recordAll, List.foldl_cons]
    refine (inductionHypothesis (tables.record record)).trans ?_
    cases record <;> rfl

/-- Tables that agree in all that is asked of them: what the census counts and selects, how many
sites each template has, which templates are selected, and what is built for them, be it a holder
or a fault. The numbers of the templates may differ. -/
structure Agree (left right : Tables) : Prop where
  size : left.census.size = right.census.size
  methodCount : ∀ template, left.census.methodCount template = right.census.methodCount template
  methods : ∀ threshold, left.census.select threshold = right.census.select threshold
  sites : ∀ template, (left.ledger.indexOf? template).map left.ledger.remaining =
    (right.ledger.indexOf? template).map right.ledger.remaining
  templates : ∀ threshold, (left.ledger.select threshold).map Prod.snd =
    (right.ledger.select threshold).map Prod.snd
  holder : ∀ type stem first threshold,
    (Holder.build type stem first (left.ledger.select threshold)).map Holder.namesOf =
      (Holder.build type stem first (right.ledger.select threshold)).map Holder.namesOf

/-- However the workers take turns, the tables agree in the end. -/
theorem runs_agree (one : Runs .empty workers left) (another : Runs .empty workers right) :
    Agree left right := by
  obtain ⟨records, permuted, rfl⟩ := one.exists_records
  obtain ⟨again, permutedToo, rfl⟩ := another.exists_records
  have same := permuted.trans permutedToo.symm
  have noted (note : Template × MethodIndex) :
      note ∈ records.filterMap (·.note?) ↔ note ∈ again.filterMap (·.note?) :=
    (same.filterMap _).mem_iff
  have census := Census.accounts_recordAll (records.filterMap (·.note?))
  have censusToo := Census.accounts_recordAll (again.filterMap (·.note?))
  have ledger := Ledger.accounts_recordAll (records.filterMap (·.occurrence?))
  have ledgerToo := Ledger.accounts_recordAll (again.filterMap (·.occurrence?))
  have templates := ledgerToo.map_select_eq ledger (same.filterMap _)
  constructor
  · rw [census_recordAll, census_recordAll]
    exact censusToo.size_eq census noted
  · rw [census_recordAll, census_recordAll]
    exact censusToo.methodCount_eq census noted
  · rw [census_recordAll, census_recordAll]
    exact censusToo.select_eq census noted
  · rw [ledger_recordAll, ledger_recordAll]
    exact ledgerToo.remaining_eq ledger (same.filterMap _)
  · rw [ledger_recordAll, ledger_recordAll]
    exact templates
  · rw [ledger_recordAll, ledger_recordAll]
    exact fun type stem first threshold => Holder.map_namesOf_build (templates threshold)

/-- The template of a window with one operator on two numbers. -/
def operator (op : BinaryOp) : Template :=
  ⟨[.arithmetic op .int], [.int, .int], [.argument 0, .argument 1], .int⟩

def sumAndProduct : List (List Record) :=
  [[.note (operator .add) 0, .occurrence (operator .add) ⟨0, 0, 2, 3⟩],
    [.note (operator .mul) 1, .occurrence (operator .mul) ⟨1, 0, 2, 3⟩]]

/-- If the workers take turns, the templates get other numbers than if one waits for the other. -/
theorem exists_runs_apart : ∃ left right, Runs .empty sumAndProduct left ∧
    Runs .empty sumAndProduct right ∧ left ≠ right ∧ Agree left right := by
  have one := @Runs.step .empty _ [] [_] (.note (operator .add) 0) [_] <|
    @Runs.step _ _ [] [_] (.occurrence (operator .add) ⟨0, 0, 2, 3⟩) [] <|
    @Runs.step _ _ [[]] [] (.note (operator .mul) 1) [_] <|
    @Runs.step _ _ [[]] [] (.occurrence (operator .mul) ⟨1, 0, 2, 3⟩) [] <| .done (by simp)
  have another := @Runs.step .empty _ [_] [] (.note (operator .mul) 1) [_] <|
    @Runs.step _ _ [] [_] (.note (operator .add) 0) [_] <|
    @Runs.step _ _ [_] [] (.occurrence (operator .mul) ⟨1, 0, 2, 3⟩) [] <|
    @Runs.step _ _ [] [[]] (.occurrence (operator .add) ⟨0, 0, 2, 3⟩) [] <| .done (by simp)
  exact ⟨_, _, one, another, by decide, runs_agree one another⟩

end Tables

end Outlining
