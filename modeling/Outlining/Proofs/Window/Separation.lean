import Outlining.Proofs.Window.Scan

/-! A scan that finds a window finds before it what it would find if the instructions ended there,
unless an earlier window grows into the one found and still waits for the constructor of the
instance that is made first in it. -/
namespace Outlining.Window

open Outlining.Bytecode Outlining.Template

variable {scope : Scope} {label : Label} {start skip last : Nat} {instruction : Instruction}
  {taken plain tail ahead : List Instruction} {window final : Window} {allocation : Allocation}
  {candidate : Candidate}

/-- Whether growth from an earlier instruction ends with a window that waits for the constructor of
the instance that is made right after the first instructions. -/
def Awaits (scope : Scope) (plain tail : List Instruction) : Prop :=
  ∃ skip < plain.length, ∃ window last allocation,
    grow scope empty (plain.drop skip ++ tail) = some (window, last) ∧
    window.pending = some allocation ∧ skip + allocation.offset = plain.length

theorem awaits_iff : Awaits scope plain tail ↔ ∃ skip < plain.length,
    ∃ allocation ∈ (grow scope empty (plain.drop skip ++ tail)).bind (·.1.pending),
      skip + allocation.offset = plain.length := by
  simp only [Awaits, Option.mem_def, Option.bind_eq_some_iff, Prod.exists]
  constructor
  · rintro ⟨skip, inside, window, last, allocation, grew, waits, place⟩
    exact ⟨skip, inside, allocation, ⟨window, last, grew, waits⟩, place⟩
  · rintro ⟨skip, inside, allocation, ⟨window, last, grew, waits⟩, place⟩
    exact ⟨skip, inside, window, last, allocation, grew, waits, place⟩

instance (scope : Scope) (plain tail : List Instruction) : Decidable (Awaits scope plain tail) :=
  decidable_of_iff _ awaits_iff.symm

/-- A window found from some place on stands there, and begins and ends with instructions. -/
theorem place_of_mem_scanAhead (member : .ok candidate ∈ scanAhead scope label start skip ahead) :
    start + skip ≤ candidate.start ∧ ∃ before taken after window,
      ahead.drop skip = before ++ taken ++ after ∧ Grown scope taken window ∧ taken ≠ [] ∧
      candidate.start = start + skip + before.length := by
  rw [scanAhead_skip] at member
  obtain ⟨before, taken, after, window, split, grown, begun, _, _, same⟩ :=
    (cut_scanAhead scope label (start + skip) (ahead.drop skip)).of_mem member
  have known := (candidate_eq_ok_iff.mp same.symm).2.2
  have starts : candidate.start = start + skip + before.length := by rw [known]
  exact ⟨by omega, before, taken, after, window, split, grown, begun, starts⟩

private theorem eq_empty_of_grown (grown : Grown scope [] window) : window = empty := by
  generalize none : ([] : List Instruction) = taken at grown
  cases grown with
  | start => rfl
  | literal | refinement | operation => simp at none

theorem Grown.admits_head (grown : Grown scope (instruction :: taken) window) :
    empty.admits scope instruction = true := by
  have whole : Grown scope ([instruction] ++ taken) window := grown
  obtain ⟨first, begun⟩ := whole.init
  generalize only : [instruction] = all at begun
  cases begun with
  | start => cases only
  | literal _ some _ | refinement _ some _ =>
    exact absurd (List.append_eq_singleton_iff.mp only.symm) (by simp [some])
  | @operation earlierTaken _ other earlier operates admitted =>
    obtain ⟨rfl, rfl⟩ : earlierTaken = [] ∧ other = instruction := by
      simpa using List.append_eq_singleton_iff.mp only.symm
    rwa [eq_empty_of_grown earlier] at admitted

theorem pending_eq_none_of_admits (begins : empty.admits scope instruction = true)
    (admitted : window.admits scope instruction = true) : window.pending = none := by
  cases waits : window.pending with
  | none => rfl
  | some allocation =>
    have constructs := (admits_iff.mp admitted).constructs
    rw [constructsPending, waits, Bool.and_eq_true] at constructs
    obtain ⟨kind, target, relocatable, opcode, constructor⟩ :=
      Instruction.exists_call_of_constructor constructs.1
    have moves := (admits_iff.mp begins).moves kind target relocatable opcode
    simp [callMoves, constructor, empty] at moves

/-- An instance that a window has come to wait for was taken no earlier than the growth began. -/
theorem offset_of_grow {bound : Nat}
    (low : ∀ allocation, window.pending = some allocation → bound ≤ allocation.offset)
    (begins : bound ≤ window.taken) (grew : grow scope window ahead = some (final, last))
    (waits : final.pending = some allocation) : bound ≤ allocation.offset := by
  induction ahead generalizing window with
  | nil => exact low allocation ((eq_of_ended grew).1 ▸ waits)
  | cons instruction ahead inductionHypothesis =>
    have next : ∀ allocation, (window.take scope instruction).pending = some allocation →
        bound ≤ allocation.offset := by
      intro allocation waits
      rw [pending_take] at waits
      split at waits
      · split at waits
        · cases waits
          exact begins
        · exact low allocation waits
      · split at waits
        · cases waits
        · exact low allocation waits
      · exact low allocation waits
    rw [grow] at grew
    split at grew
    · cases grew
    · split at grew
      · dsimp only at grew
        split at grew
        · cases grew
          exact next allocation waits
        · exact inductionHypothesis next (Nat.le_succ_of_le begins) grew
      · exact low allocation ((eq_of_ended grew).1 ▸ waits)

/-- Growth takes at least the instruction that it admits, and no window shrinks. -/
theorem Grown.of_grow_admitted (grown : Grown scope taken window)
    (admitted : window.admits scope instruction = true)
    (grew : grow scope window (instruction :: ahead) = some (final, last)) :
    taken.length ≤ last ∧ window.operations ≤ final.operations := by
  have next := grown.operate admitted
  have solid := Instruction.isTransparent_eq_false (admits_iff.mp admitted).operates
  have more {others : List Instruction}
      (further : Grown scope (taken ++ [instruction] ++ others) final) :
      window.operations ≤ final.operations := by
    rw [grown.operations_eq, further.operations_eq, List.append_assoc, List.filter_append,
      List.length_append]
    exact Nat.le_add_right _ _
  simp only [grow, solid, admitted, Bool.false_and, Bool.false_or, Bool.false_eq_true, if_false,
    if_true] at grew
  split at grew
  · cases grew
    refine ⟨Nat.le_of_eq grown.taken_eq.symm, @more [] ?_⟩
    rwa [List.append_nil]
  · obtain ⟨others, rest, split, further, count⟩ := next.of_grow grew
    rw [List.length_append, List.length_singleton] at count
    exact ⟨by omega, more further⟩

/-- Whether a scan finds in the first instructions what it would find if the others were not there,
and starts anew where they stand. -/
def Splits (scope : Scope) (label : Label) (start : Nat) (plain tail : List Instruction) : Prop :=
  ∃ early, scanAhead scope label start 0 (plain ++ tail) =
      early ++ scanAhead scope label (start + plain.length) 0 tail ∧
    early.map sketch = sketches scope plain ∧
    ∀ other, .ok other ∈ early → other.start < start + plain.length

private theorem Splits.cons (found : Option Found) (within : skip ≤ plain.length)
    (rest : Splits scope label (start + 1 + skip) (plain.drop skip) tail)
    (whole : scanAhead scope label start 0 (instruction :: (plain ++ tail)) =
      found.toList ++ scanAhead scope label (start + 1 + skip) 0 (plain.drop skip ++ tail))
    (alone : sketches scope (instruction :: plain) =
      (found.map sketch).toList ++ sketches scope (plain.drop skip))
    (here : ∀ other, found = some (.ok other) → other.start = start) :
    Splits scope label start (instruction :: plain) tail := by
  obtain ⟨early, later, sketched, before⟩ := rest
  have count : start + 1 + skip + (plain.drop skip).length =
      start + (instruction :: plain).length := by
    rw [List.length_drop, List.length_cons]
    omega
  rw [count] at later before
  refine ⟨found.toList ++ early, ?_, ?_, ?_⟩
  · rw [List.cons_append, whole, later, List.append_assoc]
  · rw [List.map_append, sketched, alone, Option.toList_map]
  · intro other member
    rcases List.mem_append.mp member with first | member
    · rw [here other (Option.mem_toList.mp first), List.length_cons]
      omega
    · exact before other member

theorem close_of_found {found : Found}
    (closes : (close scope label start ahead window last).1 = some found) :
    close scope label start ahead window last = (some found, last) ∧
      found = Window.candidate scope label start window (ahead.take (last + 1)) := by
  unfold close at closes ⊢
  split at closes
  · cases closes
  · split at closes
    · cases closes
    · rename_i large
      cases closes
      exact ⟨if_neg large, rfl⟩

theorem start_of_close {other : Candidate}
    (found : (close scope label start ahead window last).1 = some (.ok other)) :
    other.start = start := by
  rw [(candidate_eq_ok_iff.mp (close_of_found found).2.symm).2.2]

/-- A scan goes on no later than where a window starts that it finds further on. -/
private theorem beyond_of_mem
    (grew : grow scope empty (instruction :: ahead) = some (window, last))
    (member : .ok candidate ∈ scanAhead scope label start 0 (instruction :: ahead))
    (starts : start < candidate.start) :
    start + 1 + (closing scope (instruction :: ahead) window last).2 ≤ candidate.start ∧
      .ok candidate ∈ scanAhead scope label
        (start + 1 + (closing scope (instruction :: ahead) window last).2) 0
        (ahead.drop (closing scope (instruction :: ahead) window last).2) := by
  rw [scanAhead_cons_of_some label start grew, List.mem_append, Option.mem_toList] at member
  rcases member with here | further
  · exact absurd (start_of_close here) (Nat.ne_of_gt starts)
  · exact ⟨(place_of_mem_scanAhead further).1, further⟩

private theorem splits_of_grow (same : grow scope empty (instruction :: (plain ++ tail)) =
      grow scope empty (instruction :: plain))
    (member : .ok candidate ∈ scanAhead scope label start 0 (instruction :: (plain ++ tail)))
    (starts : candidate.start = start + (plain.length + 1))
    (later : ∀ skip ≤ plain.length, .ok candidate ∈
        scanAhead scope label (start + 1 + skip) 0 (plain.drop skip ++ tail) →
      Splits scope label (start + 1 + skip) (plain.drop skip) tail) :
    Splits scope label start (instruction :: plain) tail := by
  cases grew : grow scope empty (instruction :: plain) with
  | none =>
    have whole : scanAhead scope label start 0 (instruction :: (plain ++ tail)) =
        scanAhead scope label (start + 1) 0 (plain ++ tail) := by
      rw [scanAhead, same.trans grew]
    rw [whole] at member
    exact .cons none (Nat.zero_le _) (later 0 (Nat.zero_le _) member) whole
      (sketches_cons_of_none grew) (by simp)
  | some result =>
    obtain ⟨window, last⟩ := result
    have inside := lt_length_of_grow grew
    have within := (closing_le_of_grow grew (instruction :: plain)).trans (Nat.le_of_lt_succ inside)
    have closes := closing_append scope tail window inside
    rw [List.cons_append] at closes
    have whole := scanAhead_cons_of_some label start (same.trans grew)
    have further := (beyond_of_mem (same.trans grew) member (by omega)).2
    rw [closes, List.drop_append_of_le_length within] at whole further
    refine .cons _ within (later _ within further) whole ?_ fun other found => start_of_close found
    rw [sketches_cons_of_some grew, ← closes, ← close_eq_closing scope label start]
    rfl

theorem grow_ne_none (begun : window.taken ≠ 0) (ahead : List Instruction) :
    grow scope window ahead ≠ none := by
  have ended {window : Window} (begun : window.taken ≠ 0) : window.ended ≠ none := by
    unfold Window.ended
    split
    · rename_i none
      exact absurd none begun
    · exact Option.some_ne_none _
  induction ahead generalizing window with
  | nil => exact ended begun
  | cons instruction ahead inductionHypothesis =>
    rw [grow]
    split
    · rename_i first
      simp [begun] at first
    · split
      · dsimp only
        split
        · exact Option.some_ne_none _
        · exact inductionHypothesis (Nat.succ_ne_zero _)
      · exact ended begun

theorem Awaits.append (awaits : Awaits scope plain tail) (front : List Instruction) :
    Awaits scope (front ++ plain) tail := by
  obtain ⟨skip, before, window, last, allocation, grew, waits, place⟩ := awaits
  refine ⟨front.length + skip, ?_, window, last, allocation, ?_, waits, ?_⟩
  · rw [List.length_append]
    omega
  · rwa [List.drop_length_add_append]
  · rw [List.length_append]
    omega

/-- A window awaits the constructor of an instance if a scan goes on right there. -/
private theorem awaits_of_closing
    (grew : grow scope empty (instruction :: (plain ++ tail)) = some (window, last))
    (waits : window.pending = some allocation) (low : plain.length < allocation.offset)
    (early : (closing scope (instruction :: (plain ++ tail)) window last).2 ≤ plain.length) :
    Awaits scope (instruction :: plain) tail := by
  rw [closing_of_pending scope _ last waits] at early
  dsimp only at early
  rw [if_neg (Nat.ne_of_gt (Nat.zero_lt_of_lt low))] at early
  refine ⟨0, Nat.succ_pos _, window, last, allocation, grew, waits, ?_⟩
  rw [List.length_cons]
  omega

/-- The instruction at the start of a window found after some others is admitted first. -/
private theorem exists_head (member : .ok candidate ∈ scanAhead scope label start 0 (plain ++ tail))
    (starts : candidate.start = start + plain.length) :
    ∃ head rest, tail = head :: rest ∧ empty.admits scope head = true := by
  obtain ⟨_, before, taken, after, window, split, grown, begun, place⟩ :=
    place_of_mem_scanAhead member
  rw [List.drop_zero, List.append_assoc] at split
  obtain ⟨_, rfl⟩ := List.append_inj split (by omega)
  cases taken with
  | nil => exact absurd rfl begun
  | cons head rest => exact ⟨head, rest ++ after, rfl, grown.admits_head⟩

section Beyond

variable {head : Instruction} {rest : List Instruction} {next : Window}
  (passes : Passes scope empty (instruction :: plain) next)
  (begins : empty.admits scope head = true)
include passes begins

/-- If growth stops right before a window, it does not depend on the window. -/
private theorem grow_of_refused (refused : ¬ next.admits scope head = true) :
    grow scope empty (instruction :: (plain ++ head :: rest)) =
      grow scope empty (instruction :: plain) := by
  have solid := Instruction.isTransparent_eq_false (admits_iff.mp begins).operates
  have stops : grow scope next (head :: rest) = next.ended := by
    rw [Bool.not_eq_true] at refused
    simp [grow, solid, refused]
  have alone := passes []
  rw [List.append_nil] at alone
  exact ((passes (head :: rest)).trans stops).trans alone.symm

variable (grown : Grown scope (instruction :: plain) next)
include grown

/-- If growth takes the start of a window, it discards what it has taken for its size. -/
private theorem splits_of_admitted (admitted : next.admits scope head = true)
    (member : .ok candidate ∈ scanAhead scope label start 0
      (instruction :: (plain ++ head :: rest)))
    (starts : candidate.start = start + (plain.length + 1))
    (unawaited : ¬ Awaits scope (instruction :: plain) (head :: rest))
    (later : .ok candidate ∈ scanAhead scope label (start + 1) 0 (plain ++ head :: rest) →
      Splits scope label (start + 1) plain (head :: rest)) :
    Splits scope label start (instruction :: plain) (head :: rest) := by
  have settled := pending_eq_none_of_admits begins admitted
  have alone := (passes []).trans (grown.ended_eq (List.cons_ne_nil _ _))
  rw [List.append_nil, List.length_cons, Nat.add_sub_cancel] at alone
  cases grew : grow scope next (head :: rest) with
  | none =>
    have some : next.taken ≠ 0 := by
      rw [grown.taken_eq]
      exact Nat.succ_ne_zero _
    exact absurd grew (grow_ne_none some _)
  | some result =>
    obtain ⟨window, last⟩ := result
    obtain ⟨beyond, larger⟩ := grown.of_grow_admitted admitted grew
    rw [List.length_cons] at beyond
    have whole := (passes (head :: rest)).trans grew
    rw [List.cons_append] at whole
    obtain ⟨early, further⟩ := beyond_of_mem whole member (by omega)
    rw [starts, Nat.add_assoc, Nat.add_comm 1, Nat.add_le_add_iff_left, Nat.add_le_add_iff_right]
      at early
    have step := scanAhead_cons_of_some label start whole
    cases waits : window.pending with
    | some allocation =>
      have low : plain.length + 1 ≤ allocation.offset :=
        offset_of_grow (fun _ known => by rw [settled] at known; cases known)
          (Nat.le_of_eq grown.taken_eq.symm) grew waits
      exact absurd (awaits_of_closing whole waits low early) unawaited
    | none =>
      by_cases small : window.operations < scope.limits.minSize
      · have fewer : next.operations < scope.limits.minSize := Nat.lt_of_le_of_lt larger small
        rw [closing_of_small _ last waits small] at further step
        rw [close_of_small label start _ last waits small] at step
        refine .cons none (Nat.zero_le _) (later further) step ?_ (by simp)
        rw [sketches_cons_of_some alone, closing_of_small _ _ settled fewer]
        rfl
      · rw [closing_of_large _ last waits small] at early
        dsimp only at early
        omega

end Beyond

/-- A scan may be cut where a window found starts, unless an earlier window awaits it. -/
theorem splits_of_mem (member : .ok candidate ∈ scanAhead scope label start 0 (plain ++ tail))
    (starts : candidate.start = start + plain.length) (unawaited : ¬ Awaits scope plain tail) :
    Splits scope label start plain tail := by
  induction plain using scan_induction generalizing start with
  | nil => exact ⟨[], rfl, rfl, by simp⟩
  | cons instruction plain inductionHypothesis =>
    obtain ⟨head, rest, rfl, begins⟩ := exists_head member starts
    have later : ∀ skip ≤ plain.length, .ok candidate ∈
        scanAhead scope label (start + 1 + skip) 0 (plain.drop skip ++ head :: rest) →
        Splits scope label (start + 1 + skip) (plain.drop skip) (head :: rest) := by
      intro skip within further
      refine inductionHypothesis skip further ?_ fun awaits => unawaited ?_
      · rw [starts, List.length_drop, List.length_cons]
        omega
      · have earlier := awaits.append (instruction :: plain.take skip)
        rwa [List.cons_append, List.take_append_drop] at earlier
    -- growth that reaches the window found may take its start, and else depends on nothing in it
    rcases Grown.start.passes_or_stops (instruction :: plain) with
      ⟨next, passes, grown⟩ | ⟨result, stops⟩
    · by_cases admitted : next.admits scope head = true
      · exact splits_of_admitted passes begins grown admitted member starts unawaited
          (later 0 (Nat.zero_le _))
      · exact splits_of_grow (grow_of_refused passes begins admitted) member starts later
    · have same := (stops (head :: rest)).trans (stops []).symm
      rw [List.append_nil] at same
      exact splits_of_grow same member starts later

/-- A scan whose first window starts right where the scan does goes on after what the window
took. -/
theorem scanAhead_of_starts (member : .ok candidate ∈ scanAhead scope label start 0 ahead)
    (starts : candidate.start = start) :
    ∃ taken rest, ahead = taken ++ rest ∧ candidate.stop = start + (trim taken).length ∧
      scanAhead scope label start 0 ahead =
        .ok candidate :: scanAhead scope label (start + taken.length) 0 rest := by
  have early {skip : Nat} {more : List Instruction} :
      .ok candidate ∉ scanAhead scope label (start + 1) skip more := by
    intro later
    have place := (place_of_mem_scanAhead later).1
    omega
  cases ahead with
  | nil => cases member
  | cons instruction ahead =>
    rw [scanAhead] at member ⊢
    cases grew : grow scope empty (instruction :: ahead) with
    | none =>
      rw [grew] at member
      exact absurd member early
    | some result =>
      obtain ⟨window, last⟩ := result
      obtain ⟨taken, rest, split, _, count⟩ := Grown.of_grow .start grew
      rw [List.length_nil, Nat.zero_add] at count
      rw [grew] at member
      dsimp only at member ⊢
      rw [List.mem_append, Option.mem_toList] at member
      obtain ⟨closes, same⟩ := close_of_found (member.resolve_right early)
      have known := (candidate_eq_ok_iff.mp same.symm).2.2
      rw [split, count, List.take_left] at known
      refine ⟨taken, rest, split, by rw [known], ?_⟩
      rw [closes, scanAhead_skip]
      have behind : ahead.drop last = rest := by
        rw [← List.drop_succ_cons, split, count, List.drop_left]
      have place : start + 1 + last = start + taken.length := by omega
      rw [behind, place]
      rfl

end Outlining.Window
