import Outlining.Proofs.Pipeline.Mirror
import Outlining.Proofs.Window.Separation

namespace Outlining.Pipeline

open Outlining.Bytecode Outlining.Rewriting Outlining.Template Outlining.Window

variable {outlines : List Outline} {limits : Limits} {method : Method} {block : Block}
  {past plain future ahead pastRewritten futureRewritten aheadRewritten : List Instruction}
  {hit : Outline × Candidate} {candidate : Candidate} {founds : List Found} {scope : Scope}
  {label : Label} {place : Nat} {edits : List Edit}

/-- Whether a window found has no outline, so that it is left where it is. -/
def isSpared (outlines : List Outline) : Except Assertion Template → Bool
  | .ok template => (outlineFor? outlines template).isNone
  | .error _ => true

/-- The windows found that have an outline. -/
def struck (outlines : List Outline) (founds : List Found) : List (Outline × Candidate) :=
  hits outlines (founds.filterMap (·.toOption))

theorem struck_append (outlines : List Outline) (first second : List Found) :
    struck outlines (first ++ second) = struck outlines first ++ struck outlines second := by
  simp [struck, hits]

theorem mem_struck_iff : hit ∈ struck outlines founds ↔
    .ok hit.2 ∈ founds ∧ outlineFor? outlines hit.2.template = some hit.1 := by
  rw [struck, mem_hits_iff, List.mem_filterMap]
  apply and_congr_left
  intro _
  constructor
  · rintro ⟨found, member, same⟩
    cases found with
    | error assertion => cases same
    | ok candidate =>
      cases same
      exact member
  · exact fun member => ⟨_, member, rfl⟩

theorem filter_isSpared (none : struck outlines founds = []) :
    (founds.map sketch).filter (isSpared outlines) = founds.map sketch := by
  rw [List.filter_eq_self]
  intro result member
  obtain ⟨found, listed, rfl⟩ := List.mem_map.mp member
  cases found with
  | error assertion => rfl
  | ok candidate =>
    cases known : outlineFor? outlines candidate.template with
    | none => simp [sketch, Except.map, isSpared, known]
    | some outline =>
      have there : (outline, candidate) ∈ struck outlines founds :=
        mem_struck_iff.mpr ⟨listed, known⟩
      rw [none] at there
      cases there

theorem Reworked.refl (instructions : List Instruction) :
    Reworked outlines limits method instructions instructions := by
  induction instructions with
  | nil => exact .done
  | cons instruction instructions inductionHypothesis => exact .keep instruction inductionHypothesis

/-- What stands between windows that were replaced stands in two bodies that await the same of its
results. -/
theorem aligned_mirror (arranged : Arranged method (past ++ (plain ++ future)))
    (before : Reworked outlines limits method past pastRewritten)
    (later : Reworked outlines limits method future futureRewritten)
    (readers : RefinesForReaders outlines limits method) :
    Aligned method (mirror outlines limits method (pastRewritten ++ (plain ++ futureRewritten)))
      (moved outlines limits method) plain := by
  have whole := before.append ((Reworked.refl plain).append later)
  have ordered := arranged_mirror arranged whole
  obtain ⟨front, body⟩ : ∃ front, completed
      ((pastRewritten ++ (plain ++ futureRewritten)).map (moved outlines limits method)) =
      front ++ (plain.map (moved outlines limits method) ++
        futureRewritten.map (moved outlines limits method)) :=
    ⟨_, by rw [completed, List.map_append, List.map_append, ← List.append_assoc]⟩
  rw [body] at ordered
  refine ⟨past, future, _, _, arranged, ordered, ?_⟩
  intro value written
  rw [← List.append_assoc] at arranged whole
  apply isAwaited_mirror_iff arranged whole later _ readers
  rw [results_append]
  exact List.mem_append_right _ written

theorem admits_of_pinned {instruction : Instruction} {kind : CallKind} {target : Reference}
    (opcode : instruction.opcode = .call kind target false) (window : Window) :
    window.admits scope instruction = false := by
  rw [Bool.eq_false_iff]
  intro admitted
  have moves := (admits_iff.mp admitted).moves kind target false opcode
  simp [callMoves] at moves

theorem blocks_call (scope : Scope) (hit : Outline × Candidate) (rest : List Instruction) :
    Blocks scope (moved outlines limits method (editOf method hit).call :: rest) :=
  blocks_cons (Instruction.isTransparent_of_call rfl) (admits_of_pinned rfl) rest

theorem Located.reworked {window original rewritten : List Instruction} {edit : Edit}
    (located : Located outlines limits method window edit)
    (rest : Reworked outlines limits method original rewritten) :
    Reworked outlines limits method (window ++ original)
      (kept window ++ edit.call :: rewritten) := by
  obtain ⟨hit, replaced, rfl, rfl⟩ := located
  exact .replace replaced rest

/-- What stands around the first window that is replaced: the instructions before it, what the
window took, and the rest, where the scan and the edits go on. -/
structure Divided (outlines : List Outline) (limits : Limits) (method : Method) (label : Label)
    (place : Nat) (hit : Outline × Candidate) (more : List (Outline × Candidate))
    (ahead aheadRewritten plain taken rest restRewritten : List Instruction) : Prop where
  original : ahead = plain ++ (trim taken ++ (trailing taken ++ rest))
  rewritten : aheadRewritten = plain ++ (kept (trim taken) ++
    (editOf method hit).call :: (trailing taken ++ restRewritten))
  located : Located outlines limits method (trim taken) (editOf method hit)
  scanned : ((scanAhead (.ofMethod method limits) label place 0 ahead).map sketch).filter
      (isSpared outlines) = sketches (.ofMethod method limits) plain ++
    ((scanAhead (.ofMethod method limits) label (place + (plain ++ taken).length) 0 rest).map
      sketch).filter (isSpared outlines)
  later : struck outlines
    (scanAhead (.ofMethod method limits) label (place + (plain ++ taken).length) 0 rest) = more
  spliced : Spliced (Located outlines limits method) (place + (plain ++ taken).length) rest
    (more.map (editOf method)) restRewritten

private theorem struck_cons (known : outlineFor? outlines hit.2.template = some hit.1)
    (founds : List Found) :
    struck outlines (.ok hit.2 :: founds) = hit :: struck outlines founds := by
  rw [struck, List.filterMap_cons_some (by rfl), hits_cons_of_some known]
  rfl

/-- A scan finds before the first window that has an outline what it would find there alone, and
goes on behind what the window took. -/
private theorem exists_struck {tail : List Instruction} {more : List (Outline × Candidate)}
    (first : struck outlines (scanAhead scope label place 0 (plain ++ tail)) = hit :: more)
    (starts : hit.2.start = place + plain.length) (unawaited : ¬ Awaits scope plain tail) :
    ∃ taken rest, tail = taken ++ rest ∧ hit.2.stop = hit.2.start + (trim taken).length ∧
      ((scanAhead scope label place 0 (plain ++ tail)).map sketch).filter (isSpared outlines) =
        sketches scope plain ++
          ((scanAhead scope label (place + (plain ++ taken).length) 0 rest).map sketch).filter
            (isSpared outlines) ∧
      struck outlines (scanAhead scope label (place + (plain ++ taken).length) 0 rest) = more := by
  have listed : hit ∈ hit :: more := List.mem_cons_self
  rw [← first] at listed
  obtain ⟨member, known⟩ := mem_struck_iff.mp listed
  obtain ⟨early, parts, sketched, before⟩ := splits_of_mem member starts unawaited
  have notEarly : .ok hit.2 ∉ early := by
    intro inside
    have place := before hit.2 inside
    omega
  rw [parts] at member
  obtain ⟨taken, rest, split, ends, goes⟩ :=
    scanAhead_of_starts ((List.mem_append.mp member).resolve_left notEarly) starts
  have onward : place + plain.length + taken.length = place + (plain ++ taken).length := by
    rw [List.length_append, Nat.add_assoc]
  rw [goes, onward] at parts
  rw [parts, struck_append, struck_cons known] at first
  have none : struck outlines early = [] := by
    cases struckEarly : struck outlines early with
    | nil => rfl
    | cons other others =>
      rw [struckEarly] at first
      obtain rfl : other = hit := (List.cons.inj first).1
      have inside : other ∈ struck outlines early := by simp [struckEarly]
      exact absurd (mem_struck_iff.mp inside).1 notEarly
  rw [none, List.nil_append] at first
  refine ⟨taken, rest, split, by rw [ends, starts], ?_, (List.cons.inj first).2⟩
  have replaced : isSpared outlines (sketch (.ok hit.2)) = false := by
    simp [sketch, Except.map, isSpared, known]
  rw [parts, List.map_append, List.filter_append, filter_isSpared none, sketched, List.map_cons,
    List.filter_cons_of_neg (by simp [replaced])]

theorem exists_divided {more : List (Outline × Candidate)}
    (first : struck outlines (scanAhead (.ofMethod method limits) label place 0 ahead) =
      hit :: more)
    (spliced : Spliced (Located outlines limits method) place ahead
      ((hit :: more).map (editOf method)) aheadRewritten)
    (unawaited : ∀ plain tail, ahead = plain ++ tail → hit.2.start = place + plain.length →
      ¬ Awaits (.ofMethod method limits) plain tail) :
    ∃ plain taken rest restRewritten, Divided outlines limits method label place hit more ahead
      aheadRewritten plain taken rest restRewritten := by
  obtain ⟨plain, window, after, afterRewritten, rfl, rfl, located, starts, stops, behind⟩ :=
    spliced.of_cons
  have starts : hit.2.start = place + plain.length := starts
  have stops : hit.2.stop = hit.2.start + window.length := stops
  obtain ⟨taken, rest, split, ends, scanned, later⟩ :=
    exists_struck first starts (unawaited plain _ rfl starts)
  have width : window.length = (trim taken).length := by omega
  rw [← trim_append_trailing taken, List.append_assoc] at split
  obtain ⟨rfl, rfl⟩ := List.append_inj split width
  have count := length_trim_add taken
  have stop : (editOf method hit).stop + (trailing taken).length =
      place + (plain ++ taken).length := by
    have same : (editOf method hit).stop = hit.2.stop := rfl
    rw [List.length_append]
    omega
  obtain ⟨restRewritten, rfl, further⟩ := behind.of_append (by
    intro edit member
    obtain ⟨other, among, rfl⟩ := List.mem_map.mp member
    rw [← later] at among
    have place := (place_of_mem_scanAhead (mem_struck_iff.mp among).1).1
    rw [stop]
    exact place)
  rw [stop] at further
  exact ⟨plain, taken, rest, restRewritten, rfl, rfl, located, scanned, later, further⟩

/-- A window that was replaced separates what a scan finds before it from what it finds after it. -/
private theorem sketches_around (scope : Scope) (plain taken rest : List Instruction)
    (hit : Outline × Candidate) :
    sketches scope ((plain ++ (kept (trim taken) ++ (editOf method hit).call ::
        (trailing taken ++ rest))).map (moved outlines limits method)) =
      sketches scope (plain.map (moved outlines limits method)) ++
        sketches scope (rest.map (moved outlines limits method)) := by
  have literals : ∀ instruction ∈ (kept (trim taken)).map (moved outlines limits method),
      instruction.role = .literal := by
    intro instruction member
    obtain ⟨before, present, rfl⟩ := List.mem_map.mp member
    rw [role_moved]
    exact beq_iff_eq.mp (List.mem_filter.mp present).2
  have transparent : ∀ instruction ∈ (trailing taken).map (moved outlines limits method),
      instruction.isTransparent = true := by
    intro instruction member
    obtain ⟨before, present, rfl⟩ := List.mem_map.mp member
    rw [Instruction.isTransparent, role_moved]
    exact transparent_of_mem_trailing present
  rw [List.map_append, List.map_append, List.map_cons, List.map_append, ← List.append_assoc,
    sketches_append_of_blocks (blocks_call scope hit _), sketches_append_of_literals literals,
    sketches_cons_of_blocks (blocks_call scope hit _), sketches_append_of_transparent _ transparent]

/-- A second scan finds in the rest of a block the windows that were not replaced. -/
theorem sketches_mirror (readers : RefinesForReaders outlines limits method)
    (arranged : Arranged method (past ++ (ahead ++ future)))
    (before : Reworked outlines limits method past pastRewritten)
    (later : Reworked outlines limits method future futureRewritten)
    (spliced : Spliced (Located outlines limits method) place ahead
      ((struck outlines (scanAhead (.ofMethod method limits) label place 0 ahead)).map
        (editOf method)) aheadRewritten)
    (unawaited : ∀ hit ∈ struck outlines (scanAhead (.ofMethod method limits) label place 0 ahead),
      ∀ plain tail, ahead = plain ++ tail → hit.2.start = place + plain.length →
        ¬ Awaits (.ofMethod method limits) plain tail) :
    sketches (.ofMethod (mirror outlines limits method
        (pastRewritten ++ (aheadRewritten ++ futureRewritten))) limits)
      (aheadRewritten.map (moved outlines limits method)) =
    ((scanAhead (.ofMethod method limits) label place 0 ahead).map sketch).filter
      (isSpared outlines) := by
  generalize first : struck outlines (scanAhead (.ofMethod method limits) label place 0 ahead) =
    replaced at spliced unawaited
  -- over the windows replaced; what is left of each, and all before it, joins the past
  induction replaced generalizing place ahead aheadRewritten past pastRewritten with
  | nil =>
    obtain rfl := spliced.eq_of_nil
    have whole := before.append ((Reworked.refl aheadRewritten).append later)
    rw [filter_isSpared first, map_sketch_scanAhead, List.drop_zero]
    exact (mirrors_mirror arranged whole).sketches (aligned_mirror arranged before later readers)
  | cons hit more inductionHypothesis =>
    obtain ⟨plain, taken, rest, restRewritten, divided⟩ :=
      exists_divided first spliced (unawaited hit List.mem_cons_self)
    obtain ⟨rfl, rfl, located, scanned, further, behind⟩ := divided
    have kept : Reworked outlines limits method plain plain := .refl plain
    have trails := located.reworked (.refl (trailing taken))
    have beyond := inductionHypothesis (by simpa using arranged)
      (before.append (kept.append trails)) further behind ?_
    · have around := (located.reworked ((Reworked.refl (trailing taken)).append
        (.of_spliced behind))).append later
      have here : Arranged method (past ++ (plain ++
          (trim taken ++ (trailing taken ++ rest) ++ future))) := by
        simpa using arranged
      have first := (mirrors_mirror here (before.append (kept.append around))).sketches
        (aligned_mirror here before around readers)
      rw [scanned, sketches_around]
      simp only [List.append_assoc, List.cons_append] at first beyond ⊢
      rw [first, beyond]
    · intro other listed front tail parts starts awaits
      refine unawaited other (List.mem_cons_of_mem _ listed) (plain ++ taken ++ front) tail ?_ ?_
        (awaits.append _)
      · rw [parts]
        conv_rhs => rw [← trim_append_trailing taken]
        simp
      · rw [starts]
        simp [Nat.add_assoc]

end Outlining.Pipeline
