import Outlining.Proofs.Rewriting.Survivor

namespace Outlining.Rewriting

open Outlining.Bytecode Outlining.Window

/-- What stands in a block after its edits: an instruction that survived and the place where it
stood, or the call of an edit. -/
inductive Entry where
  | kept (survivor : Instruction × Nat)
  | call (edit : Edit)

namespace Entry

def instruction : Entry → Instruction
  | kept survivor => survivor.1
  | call edit => edit.call

def kept? : Entry → Option (Instruction × Nat)
  | kept survivor => some survivor
  | call _ => none

def call? : Entry → Option Edit
  | kept _ => none
  | call edit => some edit

end Entry

/-- The edit whose window covers a place. -/
def covering? (edits : List Edit) (place : Nat) : Option Edit :=
  edits.find? fun edit => decide (edit.start ≤ place ∧ place < edit.stop)

/-- What becomes of the instruction at a place. -/
def fate (edits : List Edit) (instruction : Instruction) (place : Nat) : Option Entry :=
  match covering? edits place with
  | none => some (.kept (instruction, place))
  | some edit =>
    if place + 1 = edit.stop then some (.call edit)
    else if instruction.role = .literal then some (.kept (instruction, place))
    else none

/-- What the instructions from a place on become. -/
def entries (edits : List Edit) (place : Nat) (instructions : List Instruction) : List Entry :=
  (instructions.zipIdx place).filterMap fun (instruction, place) => fate edits instruction place

/-- The instructions from a place on that survive, each with its place. -/
def survivors (edits : List Edit) (place : Nat) (instructions : List Instruction) :
    List (Instruction × Nat) :=
  (instructions.zipIdx place).filter fun (instruction, place) =>
    (covering? edits place).isNone || instruction.role == .literal

variable {place : Nat} {original rewritten window : List Instruction} {edits : List Edit}
  {edit : Edit} {replaces : List Instruction → Edit → Prop} {instruction : Instruction}

theorem covering?_of_lt (later : ∀ edit ∈ edits, place < edit.start) :
    covering? edits place = none := by
  refine List.find?_eq_none.mpr fun edit member => ?_
  have after := later edit member
  simp only [decide_eq_true_eq]
  omega

theorem covering?_cons_of_mem (starts : edit.start ≤ place) (stops : place < edit.stop) :
    covering? (edit :: edits) place = some edit :=
  List.find?_cons_of_pos (decide_eq_true ⟨starts, stops⟩)

theorem covering?_cons_of_le (behind : edit.stop ≤ place) :
    covering? (edit :: edits) place = covering? edits place := by
  refine List.find?_cons_of_neg ?_
  simp only [decide_eq_true_eq]
  omega

theorem entries_cons (later : ∀ edit ∈ edits, place < edit.start) :
    entries edits place (instruction :: original) =
      .kept (instruction, place) :: entries edits (place + 1) original := by
  rw [entries, List.zipIdx_cons, List.filterMap_cons_some]
  · rfl
  · simp only [fate, covering?_of_lt later]

theorem survivors_cons (later : ∀ edit ∈ edits, place < edit.start) :
    survivors edits place (instruction :: original) =
      (instruction, place) :: survivors edits (place + 1) original := by
  rw [survivors, List.zipIdx_cons, List.filter_cons_of_pos]
  · rfl
  · simp [covering?_of_lt later]

def literals (place : Nat) (instructions : List Instruction) : List (Instruction × Nat) :=
  (instructions.zipIdx place).filter fun (instruction, _) => instruction.role == .literal

theorem map_fst_literals (place : Nat) (instructions : List Instruction) :
    (literals place instructions).map Prod.fst =
      instructions.filter fun instruction => instruction.role == .literal := by
  conv_rhs => rw [← List.zipIdx_map_fst place instructions, List.filter_map]
  rfl

theorem entries_behind : entries (edit :: edits) edit.stop original =
    entries edits edit.stop original := by
  refine List.filterMap_congr fun (instruction, place) member => ?_
  simp only [fate, covering?_cons_of_le (List.le_snd_of_mem_zipIdx member)]

theorem survivors_behind : survivors (edit :: edits) edit.stop original =
    survivors edits edit.stop original := by
  refine List.filter_congr fun (instruction, place) member => ?_
  simp only [covering?_cons_of_le (List.le_snd_of_mem_zipIdx member)]

section Window

variable {front : List Instruction} {last : Instruction}
  (stops : edit.stop = edit.start + (front.length + 1))
include stops

/-- The instructions of a window before its last one become its literals. -/
theorem entries_front : entries (edit :: edits) edit.start front =
    (literals edit.start front).map .kept := by
  rw [entries, literals, ← List.filterMap_eq_map, List.filterMap_filter]
  refine List.filterMap_congr fun (instruction, place) member => ?_
  have starts : edit.start ≤ place := List.le_snd_of_mem_zipIdx member
  have before : place < edit.start + front.length := List.snd_lt_add_of_mem_zipIdx member
  have inner : place + 1 ≠ edit.stop := by omega
  simp only [fate, covering?_cons_of_mem starts (by omega : place < edit.stop), if_neg inner,
    beq_iff_eq]
  rfl

theorem survivors_front : survivors (edit :: edits) edit.start front =
    literals edit.start front := by
  refine List.filter_congr fun (instruction, place) member => ?_
  have starts : edit.start ≤ place := List.le_snd_of_mem_zipIdx member
  have before : place < edit.start + front.length := List.snd_lt_add_of_mem_zipIdx member
  simp only [covering?_cons_of_mem starts (by omega : place < edit.stop), Option.isNone_some,
    Bool.false_or]

theorem entries_window : entries (edit :: edits) edit.start (front ++ last :: original) =
    (literals edit.start front).map .kept ++ .call edit :: entries edits edit.stop original := by
  have covered : covering? (edit :: edits) (edit.start + front.length) = some edit :=
    covering?_cons_of_mem (by omega) (by omega)
  have next : edit.start + front.length + 1 = edit.stop := by omega
  rw [entries, List.zipIdx_append, List.filterMap_append, ← entries, entries_front stops,
    List.zipIdx_cons, List.filterMap_cons_some, next, ← entries, entries_behind]
  simp only [fate, covered, if_pos next]

theorem survivors_window (ends : last.role ≠ .literal) :
    survivors (edit :: edits) edit.start (front ++ last :: original) =
      literals edit.start front ++ survivors edits edit.stop original := by
  have covered : covering? (edit :: edits) (edit.start + front.length) = some edit :=
    covering?_cons_of_mem (by omega) (by omega)
  have next : edit.start + front.length + 1 = edit.stop := by omega
  rw [survivors, List.zipIdx_append, List.filter_append, ← survivors, survivors_front stops,
    List.zipIdx_cons, List.filter_cons_of_neg (by simp [covered, ends]), next, ← survivors,
    survivors_behind]

end Window

theorem filterMap_kept?_map_kept (stays : List (Instruction × Nat)) :
    (stays.map Entry.kept).filterMap Entry.kept? = stays := by
  rw [List.filterMap_map]
  exact List.filterMap_some

theorem filterMap_call?_map_kept (stays : List (Instruction × Nat)) :
    (stays.map Entry.kept).filterMap Entry.call? = [] := by
  simp [Entry.call?]

theorem filterMap_call?_nil (place : Nat) (original : List Instruction) :
    (entries [] place original).filterMap Entry.call? = [] := by
  have all : entries [] place original = (original.zipIdx place).map .kept :=
    congrFun List.filterMap_eq_map _
  rw [all, filterMap_call?_map_kept]

/-! ## Edits that follow one another -/

/-- Whether windows are not empty. -/
def Spans (replaces : List Instruction → Edit → Prop) : Prop :=
  ∀ window edit, replaces window edit → window ≠ []

theorem Spans.exists_last (spans : Spans replaces) (replaced : replaces window edit) :
    ∃ front last, window = front ++ [last] :=
  ⟨_, _, (List.dropLast_append_getLast (spans window edit replaced)).symm⟩

namespace Spliced

variable (result : Spliced replaces place original edits rewritten) (spans : Spans replaces)
include result spans

theorem filterMap_call? : (entries edits place original).filterMap Entry.call? = edits := by
  induction result with
  | done => rfl
  | keep instruction rest inductionHypothesis =>
    rw [entries_cons fun edit member => (rest.le_start edit member).1,
      List.filterMap_cons_none (by rfl), inductionHypothesis]
  | @replace window original rewritten edit edits replaced stops rest inductionHypothesis =>
    obtain ⟨front, last, rfl⟩ := spans.exists_last replaced
    rw [List.length_append, List.length_singleton] at stops
    rw [List.append_assoc, List.singleton_append, entries_window stops, List.filterMap_append,
      filterMap_call?_map_kept, List.nil_append, List.filterMap_cons_some (by rfl),
      inductionHypothesis]

theorem filterMap_kept? (ends : Ends replaces) :
    (entries edits place original).filterMap Entry.kept? = survivors edits place original := by
  induction result with
  | done => rfl
  | keep instruction rest inductionHypothesis =>
    have later := fun edit member => (rest.le_start edit member).1
    rw [entries_cons later, survivors_cons later, List.filterMap_cons_some (by rfl),
      inductionHypothesis]
  | @replace window original rewritten edit edits replaced stops rest inductionHypothesis =>
    obtain ⟨front, last, rfl⟩ := spans.exists_last replaced
    have noLiteral : last.role ≠ .literal := ends _ edit replaced last (by simp)
    rw [List.length_append, List.length_singleton] at stops
    rw [List.append_assoc, List.singleton_append, entries_window stops,
      survivors_window stops noLiteral, List.filterMap_append, filterMap_kept?_map_kept,
      List.filterMap_cons_none (by rfl), inductionHypothesis]

end Spliced

end Outlining.Rewriting
