import Outlining.Proofs.Window.Parameter
import Outlining.Proofs.Window.Shape

/-! An operation binds its operands at the moment it is taken, in an order that puts the temporary
first where the order does not matter. A slot for an argument reads that argument, with the
parameter that this very slot asks for, however often the argument is read; any other slot reads the
result produced last. -/
namespace Outlining.Window

open Outlining.Bytecode Outlining.Template

variable {scope : Scope} {method : Method} {limits : Limits} {taken earlier later : List Instruction}
  {instruction : Instruction} {window : Window} {rows before after : List (Instruction × List Slot)}
  {row : Instruction × List Slot} {candidate : Candidate} {place index : Nat}

/-- The operands of an instruction while `active` is the temporary, which stands first where the
order does not matter. -/
def canonical (root : Var → Var) (active : Option Var) (instruction : Instruction) : List Var :=
  match instruction.opcode, instruction.operands with
  | .arithmetic op _, [left, right] =>
    if op.isCommutative && some (root right) == active && !(some (root left) == active) then
      [right, left]
    else [left, right]
  | _, operands => operands

theorem operandsInOrder_eq (window : Window) (scope : Scope) (instruction : Instruction) :
    window.operandsInOrder scope instruction =
      canonical scope.usage.root window.temporaryValue instruction :=
  rfl

/-- The slots for the temporary are those of the operands that stand for it. -/
theorem Scope.temporary_bind (scope : Scope) (temporary : Option Var) (instruction : Instruction)
    (arguments : List Argument) (operands : List (Var × Nat)) (place : Nat) :
    (scope.bind temporary instruction arguments operands).2[place]? = some .temporary ↔
      ∃ entry, operands[place]? = some entry ∧ temporary = some (scope.usage.root entry.1) := by
  induction operands generalizing arguments place with
  | nil => simp [bind]
  | cons entry operands inductionHypothesis =>
    obtain ⟨next, _, binds, step⟩ :=
      scope.exists_binds temporary instruction arguments entry operands
    rw [step]
    cases place with
    | zero => simpa using binds.eq_temporary_iff
    | succ place => exact inductionHypothesis next place

theorem Grown.exists_bound (grown : Grown scope (earlier ++ instruction :: later) window)
    (operates : instruction.isOperation = true) :
    ∃ prior, Grown scope earlier prior ∧ prior.admits scope instruction = true ∧
      (∃ fresh, window.arguments = (prior.bound scope instruction).1 ++ fresh) ∧
      ∃ more, window.slots = prior.slots ++ (prior.bound scope instruction).2 ++ more := by
  have solid : ∀ {role : Role}, instruction.role = role → role.isOperation = true := by
    rintro role rfl
    exact operates
  generalize whole : earlier ++ instruction :: later = all at grown
  induction grown generalizing later with
  | start => simp at whole
  | @literal taken window last grown begun role inductionHypothesis =>
    rcases concat_eq_append_cons whole.symm with ⟨_, _, rfl⟩ | ⟨rest, rfl, rfl⟩
    · cases solid role
    · exact inductionHypothesis rfl
  | @refinement taken window last grown begun role inductionHypothesis =>
    rw [arguments_takeRefinement, slots_takeRefinement]
    rcases concat_eq_append_cons whole.symm with ⟨_, _, rfl⟩ | ⟨rest, rfl, rfl⟩
    · cases solid role
    · exact inductionHypothesis rfl
  | @operation taken window last grown does admitted inductionHypothesis =>
    rw [arguments_takeOperation, slots_takeOperation]
    rcases concat_eq_append_cons whole.symm with ⟨_, rfl, rfl⟩ | ⟨rest, rfl, rfl⟩
    · exact ⟨window, grown, admitted, ⟨[], by simp⟩, ⟨[], by simp⟩⟩
    · obtain ⟨prior, known, admits, ⟨fresh, arguments⟩, ⟨more, slots⟩⟩ := inductionHypothesis rfl
      obtain ⟨added, extended, _⟩ := window.bound_extends scope last
      refine ⟨prior, known, admits, ⟨fresh ++ added, ?_⟩, ⟨more ++ (window.bound scope last).2, ?_⟩⟩
      · rw [extended, arguments, List.append_assoc]
      · rw [slots, List.append_assoc]

theorem Wired.exists_bound (wired : Wired scope taken window rows)
    (grown : Grown scope taken window) (split : rows = before ++ row :: after) :
    ∃ earlier later prior, taken = earlier ++ row.1 :: later ∧ Grown scope earlier prior ∧
      earlier.filter (·.isOperation) = before.map Prod.fst ∧
      prior.admits scope row.1 = true ∧ row.2 = (prior.bound scope row.1).2 ∧
      ∃ fresh, window.arguments = (prior.bound scope row.1).1 ++ fresh := by
  have operates := (wired.row before row after split).operates
  have operations := wired.operations
  rw [split, List.map_append, List.map_cons] at operations
  obtain ⟨first, second, rfl, kept, others⟩ := List.filter_eq_append_iff.mp operations.symm
  obtain ⟨passed, later, rfl, silent, _, _⟩ := List.filter_eq_cons_iff.mp others
  have filtered : (first ++ passed).filter (·.isOperation) = before.map Prod.fst := by
    rw [List.filter_append, kept, List.filter_eq_nil_iff.mpr silent, List.append_nil]
  rw [← List.append_assoc] at grown
  obtain ⟨prior, known, admits, arguments, ⟨more, slots⟩⟩ := grown.exists_bound operates
  refine ⟨first ++ passed, later, prior, by simp, known, filtered, admits, ?_, arguments⟩
  -- As many slots stand before the row as before the binding, and both have the same number.
  have counted : (before.flatMap Prod.snd).length = prior.slots.length := by
    rw [known.length_slots, filtered, List.length_flatMap, List.map_map]
    refine congrArg List.sum (List.map_congr_left fun other member => ?_)
    obtain ⟨_, earlier⟩ := wired.of_mem (split ▸ List.mem_append_left _ member)
    exact length_row earlier
  have whole := wired.slots
  rw [split, List.flatMap_append, List.flatMap_cons, slots, List.append_assoc] at whole
  have rest := (List.append_inj whole counted).2
  refine (List.append_inj rest ?_).1
  rw [length_bound]
  exact length_row (wired.row before row after split)

/-- A slot for an argument is bound to the parameter that its operand asks for. -/
theorem exists_argument_bound (admitted : window.admits scope instruction = true)
    (bare : instruction.role = .allocation → instruction.operands = [])
    (slot : (window.bound scope instruction).2[place]? = some (.argument index)) :
    ∃ operand, (window.operandsInOrder scope instruction)[place]? = some operand ∧
      (window.bound scope instruction).1[index]? = some ⟨scope.usage.root operand,
        parameterType (scope.method.typeOf (scope.usage.root operand)) instruction place⟩ := by
  by_cases role : instruction.role = .allocation
  · rw [bound_of_bare window scope (bare role)] at slot
    cases slot
  · obtain ⟨fitted, fit, _⟩ := fit_of_admits admitted role
    obtain ⟨⟨operand, number⟩, argument, read, found, value, typed⟩ := Scope.typed_bind fit slot
    rw [List.getElem?_zipIdx, Option.map_eq_some_iff] at read
    obtain ⟨other, read, same⟩ := read
    cases same
    refine ⟨operand, read, ?_⟩
    rw [bound, Scope.bind_fit fit, found, ← value, ← Nat.zero_add place, ← typed]

theorem temporary_bound_iff : (window.bound scope instruction).2[place]? = some .temporary ↔
    ∃ operand, (window.operandsInOrder scope instruction)[place]? = some operand ∧
      window.temporaryValue = some (scope.usage.root operand) := by
  rw [bound, Scope.temporary_bind]
  constructor
  · rintro ⟨⟨operand, number⟩, read, standing⟩
    rw [List.getElem?_zipIdx, Option.map_eq_some_iff] at read
    obtain ⟨other, read, same⟩ := read
    cases same
    exact ⟨operand, read, standing⟩
  · rintro ⟨operand, read, standing⟩
    refine ⟨(operand, 0 + place), ?_, standing⟩
    rw [List.getElem?_zipIdx]
    exact congrArg (Option.map _) read

/-- What the slots of an operation read, where `active` is the temporary before it. -/
structure Candidate.Reads (candidate : Candidate) (method : Method) (active : Option Var)
    (instruction : Instruction) (slots : List Slot) : Prop where
  length : slots.length = instruction.operands.length
  argument : ∀ place index : Nat, slots[place]? = some (.argument index) →
    ∃ operand, (canonical (Usage.ofMethod method).root active instruction)[place]? = some operand ∧
      candidate.arguments[index]? = some ((Usage.ofMethod method).root operand) ∧
      candidate.template.argumentTypes[index]? = some
        (parameterType (method.typeOf ((Usage.ofMethod method).root operand)) instruction place)
  temporary : ∀ place : Nat, slots[place]? = some Slot.temporary ↔
    ∃ operand, (canonical (Usage.ofMethod method).root active instruction)[place]? = some operand ∧
      active = some ((Usage.ofMethod method).root operand)

/-- The slots of a row read what stood for its operands when the window took it. -/
theorem Closed.exists_reads {label : Label} {start : Nat}
    (closed : Closed (.ofMethod method limits) label start taken window candidate)
    (wired : Wired (.ofMethod method limits) taken window rows)
    (split : rows = before ++ row :: after) :
    ∃ active, (∀ value, active = some value → lastResult (before.map Prod.fst) = some value) ∧
      candidate.Reads method active row.1 row.2 := by
  obtain ⟨earlier, later, prior, _, grown, passed, admits, slots, fresh, all⟩ :=
    wired.exists_bound closed.grown split
  have bare := closed.bare row.1
    (wired.mem_taken (split ▸ List.mem_append_right _ List.mem_cons_self))
  refine ⟨prior.temporaryValue, fun value active => ?_, ?_⟩
  · obtain ⟨temporary, standing, rfl⟩ := Option.map_eq_some_iff.mp active
    exact passed ▸ (grown.temporary_eq standing).1
  · constructor
    case length => exact length_row (wired.row before row after split)
    case argument =>
      intro place index slot
      rw [slots] at slot
      obtain ⟨operand, read, given⟩ := exists_argument_bound admits bare slot
      rw [operandsInOrder_eq] at read
      -- Later operations only add arguments behind those known to the row.
      have kept : window.arguments[index]? = some ⟨(Usage.ofMethod method).root operand,
          parameterType (method.typeOf ((Usage.ofMethod method).root operand)) row.1 place⟩ := by
        rw [all, List.getElem?_append_left (List.getElem?_eq_some_iff.mp given).1]
        exact given
      refine ⟨operand, read, ?_, ?_⟩
      · rw [closed.arguments_eq, List.getElem?_map, kept]
        rfl
      · rw [closed.argumentTypes_eq, List.getElem?_map, kept]
        rfl
    case temporary =>
      intro place
      rw [slots, temporary_bound_iff, operandsInOrder_eq]
      rfl

/-- Every slot of a candidate reads what it is wired to: an argument that has the parameter this
slot asks for, or the result produced last before the operation. -/
theorem reused_arguments_fit (found : .ok candidate ∈ method.scan limits) :
    ∃ block ∈ method.blocks, block.label = candidate.block ∧
      (candidate.rows block).map Prod.fst = (candidate.covered block).filter (·.isOperation) ∧
      (candidate.rows block).map Prod.snd = candidate.template.wiring ∧
      ∀ before instruction operation slots after,
        candidate.rows block = before ++ (instruction, operation, slots) :: after →
        Operation.ofInstruction? instruction = some operation ∧
        ∃ active, (∀ value, active = some value → lastResult (before.map Prod.fst) = some value) ∧
          candidate.Reads method active instruction slots := by
  obtain ⟨block, present, start, taken, rest, window, split, _, closed⟩ := closed_of_mem_scan found
  obtain ⟨rows, wired⟩ := closed.grown.wired closed.bare
  have listed := closed.rows_eq split wired
  refine ⟨block, present, by rw [closed.same], ?_, ?_, ?_⟩
  · rw [listed, closed.covered_eq split, filter_isOperation_trim, ← wired.operations, List.map_map]
    rfl
  · rw [listed, closed.same, List.map_map]
    exact (wired.wiring closed.bare).symm
  · intro before instruction operation slots after same
    rw [listed, List.map_eq_append_iff] at same
    obtain ⟨first, others, whole, rfl, same⟩ := same
    obtain ⟨row, second, rfl, same, _⟩ := List.map_eq_cons_iff.mp same
    cases same
    obtain ⟨active, produced, reads⟩ := closed.exists_reads wired whole
    refine ⟨ofInstruction?_eq (wired.row first row second whole).operates, active, ?_, reads⟩
    rw [List.map_map]
    exact produced

/-- A method that reads one argument in three operations, twice after the result before it. -/
def rereads : Method where
  index := 0
  reference := ⟨⟨"LA;"⟩, "m", ⟨.int, [.int, .int]⟩⟩
  types := List.replicate 5 (.number .int)
  blocks := [⟨0, [⟨.argument 0, [], some 0, none⟩, ⟨.argument 1, [], some 1, none⟩,
    ⟨.arithmetic .sub .int, [0, 1], some 2, none⟩, ⟨.arithmetic .add .int, [0, 2], some 3, none⟩,
    ⟨.call .static ⟨⟨"LA;"⟩, "f", ⟨.int, [.int, .int]⟩⟩ true, [3, 0], some 4, none⟩,
    ⟨.ret, [4], none, none⟩], [], []⟩]
  synthetic := false

/-- The window that a scan finds in it. -/
def reread : Candidate where
  block := 0
  start := 2
  stop := 5
  template :=
    ⟨[.arithmetic .sub .int, .arithmetic .add .int,
        .call ⟨⟨"LA;"⟩, "f", ⟨.int, [.int, .int]⟩⟩ .static true], [.int, .int],
      [.argument 0, .argument 1, .temporary, .argument 0, .temporary, .argument 0], .int⟩
  arguments := [0, 1]
  registers := 2
  result := some 4
  operations := 3

theorem reads_of_reread :
    .ok reread ∈ rereads.scan ⟨1, 9, 2, false⟩ ∧ ∃ block ∈ rereads.blocks, ∃ before after,
      reread.rows block = before ++ (⟨.arithmetic .add .int, [0, 2], some 3, none⟩,
        .arithmetic .add .int, [.temporary, .argument 0]) :: after ∧
      lastResult (before.map Prod.fst) = some 2 ∧
      reread.Reads rereads (some 2) ⟨.arithmetic .add .int, [0, 2], some 3, none⟩
        [.temporary, .argument 0] := by
  have found : .ok reread ∈ rereads.scan ⟨1, 9, 2, false⟩ := by decide
  obtain ⟨block, present, _, _, _, rows⟩ := reused_arguments_fit found
  have second : reread.rows block =
      [(⟨.arithmetic .sub .int, [0, 1], some 2, none⟩, .arithmetic .sub .int,
        [.argument 0, .argument 1])] ++
      (⟨.arithmetic .add .int, [0, 2], some 3, none⟩, .arithmetic .add .int,
        [.temporary, .argument 0]) ::
      [(⟨.call .static ⟨⟨"LA;"⟩, "f", ⟨.int, [.int, .int]⟩⟩ true, [3, 0], some 4, none⟩,
        .call ⟨⟨"LA;"⟩, "f", ⟨.int, [.int, .int]⟩⟩ .static true,
        [.temporary, .argument 0])] := by
    obtain rfl := List.mem_singleton.mp present
    decide
  obtain ⟨_, active, produced, reads⟩ := rows _ _ _ _ _ second
  obtain ⟨operand, _, standing⟩ := (reads.temporary 0).mp rfl
  have last := (produced _ standing).symm.trans (by decide : _ = some 2)
  exact ⟨found, block, present, _, _, second, by decide, (standing.trans last) ▸ reads⟩

end Outlining.Window
