import Outlining.CommandLine.Run
import Outlining.Proofs.Pipeline.Naming
import Outlining.Proofs.Pipeline.Validity

/-! A run lists the outlines that it made inside their holder, and on their own the methods that are
no outlines. Outlines that the program already had are in neither part, so nothing is left out
exactly if there are none. -/
namespace Outlining

open Outlining.Bytecode Outlining.Text

namespace Bytecode.Program

/-- The methods that were made by outlining. -/
def outlines (program : Program) : List Method := program.methods.filter (·.synthetic)

end Bytecode.Program

namespace Text

theorem unlines_cons (line : String) (lines : List String) :
    unlines (line :: lines) = line ++ "\n" ++ unlines lines := String.join_cons

theorem unlines_flatMap {α : Type} (lines : α → List String) (items : List α) :
    unlines (items.flatMap lines) = String.join (items.map fun item => unlines (lines item)) := by
  induction items with
  | nil => rfl
  | cons item items inductionHypothesis =>
    rw [List.map_cons, String.join_cons, ← inductionHypothesis, List.flatMap_cons, unlines,
      List.map_append, String.join_append]
    rfl

end Text

namespace Document

theorem valid_of_loadProgram {source : String} {program : Program}
    (loads : loadProgram source = .ok program) :
    program.complaint? = none := by
  unfold loadProgram at loads
  split at loads
  · cases loads
  · split at loads
    · cases loads
    · rename_i valid
      cases loads
      exact valid

end Document

theorem Holder.synthetic_of_outlines {type : Descriptor} {stem : String} {first number : Nat}
    {templates : List (TemplateIndex × Template)} {made : List (Outline × Method)}
    (built : outlines type stem first number templates = .ok made) {outline : Method}
    (member : outline ∈ made.map (·.2)) : outline.synthetic = true := by
  obtain ⟨result, listed, rfl⟩ := List.mem_map.mp member
  obtain ⟨place, found⟩ := List.mem_iff_getElem?.mp listed
  obtain ⟨entry, _, making⟩ := (made_of_outlines built place).1 result found
  exact (Template.of_body_eq_ok making.body).2.2.1

namespace Pipeline

variable {options : Options} {program : Program} {returned : Option Holder} {final : Pipeline}

/-- What a run makes of the methods: it may change those that are no outlines, and appends new
outlines. -/
structure Extends (change : Method → Method) (returned : Option Holder) (program final : Program) :
    Prop where
  methods : final.methods = program.methods.map change ++ outlinesOf returned
  synthetic : ∀ method, (change method).synthetic = method.synthetic
  keeps : ∀ method, method.synthetic = true → change method = method
  outlines : ∀ outline ∈ outlinesOf returned, outline.synthetic = true

theorem exists_extends (done : run.run (start options program) = .ok returned final) :
    ∃ change, Extends change returned program final.program := by
  obtain ⟨made, builds, outlines, methods⟩ := exists_made_of_run done
  rw [← outlines] at methods
  refine ⟨_, methods, fun method => ?_, fun method synthetic => ?_, fun outline member => ?_⟩
  · rw [outcome_eq]
  · rw [outcome, if_neg]
    intro chosen
    rw [synthetic_of_isChosen chosen] at synthetic
    cases synthetic
  · rw [outlines] at member
    rcases builds with rfl | builds
    · cases member
    · exact Holder.synthetic_of_outlines builds member

namespace Extends

variable {change : Method → Method} {after : Program}
  (extended : Extends change returned program after)
include extended

theorem plain_eq : after.methods.filter (!·.synthetic) =
    (program.methods.map change).filter (!·.synthetic) := by
  have none : (outlinesOf returned).filter (!·.synthetic) = [] := by
    rw [List.filter_eq_nil_iff]
    intro outline member
    simp [extended.outlines outline member]
  rw [extended.methods, List.filter_append, none, List.append_nil]

theorem outlines_eq : (program.methods.map change).filter (·.synthetic) = program.outlines := by
  have same : (fun method : Method => method.synthetic) ∘ change = (·.synthetic) :=
    funext extended.synthetic
  rw [List.filter_map, same]
  conv_rhs => rw [Program.outlines, ← List.map_id (List.filter _ _)]
  apply List.map_congr_left
  intro method member
  exact extended.keeps method (List.mem_filter.mp member).2

/-- In the end there are the new outlines, the methods that are no outlines, and the old
outlines. -/
theorem perm : (outlinesOf returned ++ after.methods.filter (!·.synthetic) ++
    program.outlines).Perm after.methods := by
  rw [extended.plain_eq, ← extended.outlines_eq, List.append_assoc]
  conv_rhs => rw [extended.methods]
  refine List.perm_append_comm.trans (List.Perm.append_right _ ?_)
  exact List.perm_append_comm.trans (List.filter_append_perm ..)

end Extends

end Pipeline

namespace CommandLine

/-- The text of a holder, if there is one: a line for the class, the listings of its methods, and an
empty line. -/
def heading : Option Holder → String
  | none => ""
  | some holder =>
    "class " ++ holder.type.text ++ " extends " ++ holder.superclass.text
      ++ " (source: " ++ holder.sourceFile ++ ")\n"
      ++ String.join (holder.methods.map (·.listing)) ++ "\n"

/-- The listings of methods on their own, each with an empty line. -/
def separately (methods : List Method) : String := String.join (methods.map (·.listing ++ "\n"))

/-- Whether a text lists each of some methods once: those of the holder inside it, and the others on
their own. -/
def Lists (holder : Option Holder) (methods : List Method) (text : String) : Prop :=
  ∃ alone, (Pipeline.outlinesOf holder ++ alone).Perm methods ∧
    text = heading holder ++ separately alone

theorem listing_eq (holder : Option Holder) (program : Program) :
    listing holder program =
      heading holder ++ separately (program.methods.filter (!·.synthetic)) := by
  cases holder with
  | none => rfl
  | some holder =>
    simp only [listing, Holder.listing, unlines_cons, unlines_flatMap, heading, String.append_assoc]
    rfl

theorem length_separately (methods : List Method) : (separately methods).length =
    (methods.map fun method => method.listing.length + 1).sum := by
  rw [separately, String.length_join, List.map_map]
  refine congrArg List.sum (List.map_congr_left fun method _ => ?_)
  rw [Function.comp_apply, String.length_append]
  rfl

/-- What the text of a run tells of the methods in the end. -/
structure Tells (program : Program) (holder : Option Holder) (after : Program) (text : String) :
    Prop where
  /-- A method is listed, and then once, unless it is an outline that was there before. -/
  listed : ∃ listed, Lists holder listed text ∧ listed.Nodup ∧
    ∀ method, method ∈ listed ↔ method ∈ after.methods ∧ method ∉ program.outlines
  remain : ∀ outline ∈ program.outlines, outline ∈ after.methods
  complete : Lists holder after.methods text ↔ program.outlines = []

variable {change : Method → Method} {holder : Option Holder} {program after : Program}

/-- A text that lists all methods is longer than that of a run by the listings of the outlines that
were there before. -/
theorem lists_iff (extended : Pipeline.Extends change holder program after) :
    Lists holder after.methods (listing holder after) ↔ program.outlines = [] := by
  have whole := extended.perm
  rw [listing_eq]
  constructor
  · -- The texts have the same heading, and what `alone` lists besides has a length of its own.
    rintro ⟨alone, perm, same⟩
    rw [List.append_assoc] at whole
    have parts := (List.perm_append_left_iff _).mp (perm.trans whole.symm)
    have lengths := congrArg String.length same
    rw [String.length_append, String.length_append, length_separately, length_separately,
      (parts.map _).sum_nat, List.map_append, List.sum_append] at lengths
    by_contra some
    obtain ⟨outline, member⟩ := List.exists_mem_of_ne_nil _ some
    have long : outline.listing.length + 1 ≤
        (program.outlines.map fun method => method.listing.length + 1).sum :=
      List.le_sum_of_mem (List.mem_map_of_mem member)
    omega
  · intro none
    rw [none, List.append_nil] at whole
    exact ⟨_, whole, rfl⟩

theorem tells_listing (extended : Pipeline.Extends change holder program after)
    (valid : after.complaint? = none) : Tells program holder after (listing holder after) where
  listed := by
    have whole := extended.perm
    have distinct : after.methods.Nodup :=
      (Pipeline.nodup_indices (Pipeline.indexed_of_valid valid)).of_map _
    obtain ⟨once, _, apart⟩ := List.nodup_append.mp (whole.nodup_iff.mpr distinct)
    refine ⟨_, ⟨_, .refl _, listing_eq holder after⟩, once, fun method => ?_⟩
    constructor
    · intro member
      exact ⟨whole.subset (List.mem_append_left _ member), fun old => apart _ member _ old rfl⟩
    · rintro ⟨member, new⟩
      exact (List.mem_append.mp (whole.symm.subset member)).resolve_right new
  remain outline member := extended.perm.subset (List.mem_append_right _ member)
  complete := lists_iff extended

/-- The listing of a run on a valid program tells of every method but the outlines that the program
already had. -/
theorem tells_of_run {options : Options} {final : Pipeline} (valid : program.complaint? = none)
    (runs : Pipeline.run.run (.start options program) = .ok holder final) :
    Tells program holder final.program (listing holder final.program) := by
  obtain ⟨change, extended⟩ := Pipeline.exists_extends runs
  have kept := Pipeline.preserves_run (.start options program) valid
  rw [runs] at kept
  exact tells_listing extended kept.valid

/-- A run that succeeds lists every method but the outlines that the program already had, so it
lists all of them exactly if there are none. -/
theorem outline_tells {surroundings : Surroundings} {arguments : Arguments} {input source : String}
    {options : Options} {program : Program} {holder : Option Holder} {final : Pipeline}
    (chosen : chosenOptions surroundings arguments = .ok options)
    (given : inputText surroundings input = .ok source)
    (loads : Document.loadProgram source = .ok program)
    (runs : Pipeline.run.run (.start options program) = .ok holder final) :
    ∃ text, outline surroundings arguments input = .ok (text, final.statistics) ∧
      Tells program holder final.program text := by
  refine ⟨listing holder final.program, ?_, tells_of_run (Document.valid_of_loadProgram loads) runs⟩
  simp only [outline, chosen, given, loads, runs, Except.mapError, bind, Except.bind]

/-- A program that was outlined before. -/
def earlierRun : String := unlines [
  "[[methods]]",
  "id=0",
  "reference=\x7bholder='LA;',name='m',proto=\x7breturn_type='V'\x7d\x7d",
  "[[methods]]",
  "id=1",
  "is_outline=true",
  "reference=\x7bholder='LO;',name='o',proto=\x7breturn_type='V'\x7d\x7d"]

def ofEarlierRun : Program := ⟨[
  ⟨0, ⟨⟨"LA;"⟩, "m", ⟨.void, []⟩⟩, [], [], false⟩,
  ⟨1, ⟨⟨"LO;"⟩, "o", ⟨.void, []⟩⟩, [], [], true⟩]⟩

def withEarlierRun : Surroundings := ⟨fun _ => .ok earlierRun, .ok "", 1⟩

/-- One of two methods is not listed. -/
theorem outline_omits_earlier : ∃ holder final,
    chosenOptions withEarlierRun .none = .ok (Options.standard 1) ∧
    inputText withEarlierRun "p.toml" = .ok earlierRun ∧
    Document.loadProgram earlierRun = .ok ofEarlierRun ∧
    Pipeline.run.run (.start (Options.standard 1) ofEarlierRun) = .ok holder final ∧
    ∃ text, outline withEarlierRun .none "p.toml" = .ok (text, final.statistics) ∧
      ¬ Lists holder final.program.methods text := by
  have chosen : chosenOptions withEarlierRun .none = .ok (Options.standard 1) := by decide
  have loads : Document.loadProgram earlierRun = .ok ofEarlierRun := by decide +kernel
  have returns : Pipeline.succeeds (fun _ _ => true)
      (Pipeline.run.run (.start (Options.standard 1) ofEarlierRun)) = true := by decide +kernel
  obtain ⟨holder, final, runs, _⟩ := Pipeline.exists_of_succeeds returns
  obtain ⟨text, done, tells⟩ := @outline_tells withEarlierRun .none "p.toml" earlierRun
    (Options.standard 1) ofEarlierRun holder final chosen rfl loads runs
  exact ⟨holder, final, chosen, rfl, loads, runs, text, done, fun lists =>
    List.cons_ne_nil _ _ (tells.complete.mp lists)⟩

end CommandLine

end Outlining
