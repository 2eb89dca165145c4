import Outlining.Proofs.Window.Scan

/-! A scan of a block looks at one instruction after the other, closes its window, and starts the
next one, be it before the place that it has reached. It ends all the same, since each window starts
behind the one before, and what it has found then is what the recursion over the block finds. -/
namespace Outlining.Window

open Outlining.Bytecode

/-- What a scan does next: it looks at an instruction, closes its window before `stop`, or starts
an empty window at `place`. -/
inductive Task where
  | look
  | close (stop : Nat)
  | restart (place : Nat)
deriving DecidableEq

/-- A scan of a block between two of its steps. -/
structure Scanner where
  /-- The place where the window starts. -/
  start : Nat
  /-- The place of the instruction to look at. -/
  place : Nat
  window : Window
  task : Task
deriving DecidableEq

namespace Scanner

/-- A scan with an empty window at `place`. -/
def fresh (place : Nat) : Scanner := ⟨place, place, .empty, .look⟩

def look (scope : Scope) (scanner : Scanner) (instruction : Instruction) : Scanner :=
  if instruction.isTransparent && scanner.place == scanner.start then
    { scanner with task := .restart (scanner.place + 1) }
  else if instruction.isTransparent || scanner.window.admits scope instruction then
    let window := scanner.window.take scope instruction
    if scope.limits.maxSize ≤ window.operations then
      { scanner with window := window, task := .close (scanner.place + 1) }
    else { scanner with window := window, place := scanner.place + 1 }
  else if scanner.start < scanner.place then { scanner with task := .close scanner.place }
  else { scanner with task := .restart (scanner.place + 1) }

/-- What is found when the window is closed before `stop`, and where the next one starts. A window
with an instance that waits for its constructor is given up for the instance, or passed over if the
instance is the first of it; a small window is given up for the next start. -/
def shut (scope : Scope) (block : Block) (scanner : Scanner) (stop : Nat) : Option Found × Nat :=
  match scanner.window.pending with
  | some allocation =>
    (none, if allocation.offset = 0 then stop else scanner.start + allocation.offset)
  | none =>
    if scanner.window.operations < scope.limits.minSize then (none, scanner.start + 1)
    else
      (some (candidate scope block.label scanner.start scanner.window
        ((block.instructions.drop scanner.start).take (stop - scanner.start))), stop)

/-- The next step, with what it finds; `none` if the scan has come to its end. -/
def step (scope : Scope) (block : Block) (scanner : Scanner) : Option (Scanner × Option Found) :=
  match scanner.task with
  | .look =>
    match block.instructions[scanner.place]? with
    | some instruction => some (scanner.look scope instruction, none)
    | none =>
      if scanner.start < scanner.place then
        some ({ scanner with task := .close scanner.place }, none)
      else none
  | .close stop =>
    let (found, next) := scanner.shut scope block stop
    some ({ scanner with task := .restart next }, found)
  | .restart place => some (fresh place, none)

/-- The scans of a block that so many steps lead to, with what was found on the way. -/
inductive Runs (scope : Scope) (block : Block) : Nat → List Found → Scanner → Prop where
  | start : Runs scope block 0 [] (fresh 0)
  | step {steps : Nat} {founds : List Found} {scanner next : Scanner} {found : Option Found}
      (earlier : Runs scope block steps founds scanner)
      (goes : scanner.step scope block = some (next, found)) :
      Runs scope block (steps + 1) (founds ++ found.toList) next

/-- Where a scan may stand in its block: its window has taken the instructions from its start to
its place, or to where it is to be closed. -/
inductive Placed (scope : Scope) (block : Block) : Scanner → Prop where
  | look {start place : Nat} {window : Window} (order : start ≤ place)
      (inside : place ≤ block.instructions.length)
      (grown : Grown scope ((block.instructions.drop start).take (place - start)) window) :
      Placed scope block ⟨start, place, window, .look⟩
  | close {start place stop : Nat} {window : Window} (order : start < stop)
      (inside : stop ≤ block.instructions.length)
      (grown : Grown scope ((block.instructions.drop start).take (stop - start)) window) :
      Placed scope block ⟨start, place, window, .close stop⟩
  | restart {start place next : Nat} {window : Window} (order : start < next)
      (inside : next ≤ block.instructions.length) :
      Placed scope block ⟨start, place, window, .restart next⟩

/-- More than the number of steps that a scan of a block of the given size can still make. -/
def distance (size : Nat) (scanner : Scanner) : Nat :=
  (size + 3) * (size - scanner.start) +
    match scanner.task with
    | .look => size - scanner.place + 2
    | .close _ => 1
    | .restart _ => 0

/-- What a scan finds from a start on. -/
def findsFrom (scope : Scope) (block : Block) (start : Nat) : List Found :=
  scanAhead scope block.label start 0 (block.instructions.drop start)

/-- What a scan finds once its window is to be closed before `stop`. -/
def findsShut (scope : Scope) (block : Block) (scanner : Scanner) (stop : Nat) : List Found :=
  (scanner.shut scope block stop).1.toList ++
    findsFrom scope block (scanner.shut scope block stop).2

/-- What a scan has still to find. -/
def remaining (scope : Scope) (block : Block) (scanner : Scanner) : List Found :=
  match scanner.task with
  | .look =>
    match grow scope scanner.window (block.instructions.drop scanner.place) with
    | none => findsFrom scope block (scanner.start + 1)
    | some (window, last) =>
      findsShut scope block { scanner with window := window } (scanner.start + last + 1)
  | .close stop => scanner.findsShut scope block stop
  | .restart place => findsFrom scope block place

variable {scope : Scope} {block : Block} {scanner next : Scanner} {found : Option Found}
  {founds : List Found} {steps start place stop last : Nat} {window final : Window}
  {instruction : Instruction}

theorem drop_eq_cons (present : block.instructions[place]? = some instruction) :
    block.instructions.drop place = instruction :: block.instructions.drop (place + 1) := by
  obtain ⟨inside, rfl⟩ := List.getElem?_eq_some_iff.mp present
  exact List.drop_eq_getElem_cons inside

theorem take_drop_succ (present : block.instructions[place]? = some instruction)
    (order : start ≤ place) :
    (block.instructions.drop start).take (place + 1 - start) =
      (block.instructions.drop start).take (place - start) ++ [instruction] := by
  have offset : place + 1 - start = place - start + 1 := by omega
  have reached : (block.instructions.drop start)[place - start]? = some instruction := by
    rw [List.getElem?_drop, Nat.add_sub_cancel' order, present]
  rw [offset, List.take_add_one, reached]
  rfl

/-- To close a window is to find the same and to pass over the instructions before the next
start. -/
theorem shut_eq (scanner : Scanner) (last : Nat) :
    scanner.shut scope block (scanner.start + last + 1) =
      Prod.map id (scanner.start + 1 + ·) (close scope block.label scanner.start
        (block.instructions.drop scanner.start) scanner.window last) := by
  unfold shut close
  cases scanner.window.pending with
  | some allocation =>
    cases offset : allocation.offset with
    | zero => simp [offset, Nat.add_right_comm]
    | succ skip => simp [offset, Nat.add_assoc, Nat.add_comm 1]
  | none =>
    by_cases small : scanner.window.operations < scope.limits.minSize
    · simp [small]
    · have size : scanner.start + last + 1 - scanner.start = last + 1 := by omega
      simp [small, size, Nat.add_right_comm]

/-- The recursion over the block starts a window like a scan does. -/
theorem findsFrom_eq (start : Nat) :
    findsFrom scope block start = (fresh start).remaining scope block := by
  unfold findsFrom remaining fresh
  cases ahead : block.instructions.drop start with
  | nil =>
    have short := List.drop_eq_nil_iff.mp ahead
    simp [scanAhead, grow, Window.ended, Window.empty, findsFrom,
      List.drop_eq_nil_of_le (Nat.le_succ_of_le short)]
  | cons instruction rest =>
    have after : rest = block.instructions.drop (start + 1) := by
      rw [← List.drop_drop, ahead, List.drop_succ_cons, List.drop_zero]
    rw [scanAhead]
    dsimp only
    cases grew : grow scope .empty (instruction :: rest) with
    | none => rw [after, findsFrom]
    | some result =>
      obtain ⟨window, last⟩ := result
      simp only [findsShut, shut_eq, ahead, Prod.map_fst, Prod.map_snd, id]
      rw [scanAhead_skip, after, List.drop_drop, findsFrom]

/-- What a step comes to: the scan stands in the block again, nearer to its end, and what it finds
in the step it has no longer to find. -/
structure Advances (scope : Scope) (block : Block) (scanner next : Scanner)
    (found : Option Found) : Prop where
  placed : Placed scope block next
  nearer : next.distance block.instructions.length < scanner.distance block.instructions.length
  finds : scanner.remaining scope block = found.toList ++ next.remaining scope block

theorem taken_of_grown (inside : place ≤ block.instructions.length)
    (grown : Grown scope ((block.instructions.drop start).take (place - start)) window) :
    window.taken = place - start := by
  rw [grown.taken_eq, List.length_take, List.length_drop]
  omega

theorem remaining_of_grow_eq_none
    (grew : grow scope window (block.instructions.drop place) = none) :
    (Scanner.mk start place window .look).remaining scope block =
      findsFrom scope block (start + 1) := by
  rw [remaining, grew]

theorem remaining_of_grow_eq_some
    (grew : grow scope window (block.instructions.drop place) = some (final, last))
    (reached : start + last + 1 = stop) :
    (Scanner.mk start place window .look).remaining scope block =
      (Scanner.mk start place final (.close stop)).remaining scope block := by
  rw [remaining, grew, ← reached]
  rfl

private theorem advances_pass (inside : start < block.instructions.length)
    (grew : grow scope window (block.instructions.drop start) = none) :
    Advances scope block ⟨start, start, window, .look⟩ ⟨start, start, window, .restart (start + 1)⟩
      none where
  placed := .restart (Nat.lt_succ_self start) inside
  nearer := by simp [distance]
  finds := remaining_of_grow_eq_none grew

/-- A window that has taken something and takes no more is closed at the place reached. -/
private theorem advances_halt (order : start < place) (inside : place ≤ block.instructions.length)
    (grown : Grown scope ((block.instructions.drop start).take (place - start)) window)
    (halts : grow scope window (block.instructions.drop place) = window.ended) :
    Advances scope block ⟨start, place, window, .look⟩ ⟨start, place, window, .close place⟩
      none where
  placed := .close order inside grown
  nearer := by simp [distance]
  finds := by
    obtain ⟨last, count⟩ : ∃ last, window.taken = last + 1 :=
      ⟨place - start - 1, by rw [taken_of_grown inside grown]; omega⟩
    rw [Window.ended, count] at halts
    refine remaining_of_grow_eq_some halts ?_
    have taken := taken_of_grown inside grown
    omega

private theorem advances_take (order : start ≤ place) (inside : place < block.instructions.length)
    (taken : window.taken = place - start)
    (grown : Grown scope ((block.instructions.drop start).take (place + 1 - start)) final)
    (grew : grow scope window (block.instructions.drop place) =
      if scope.limits.maxSize ≤ final.operations then some (final, window.taken)
      else grow scope final (block.instructions.drop (place + 1))) :
    Advances scope block ⟨start, place, window, .look⟩
      (if scope.limits.maxSize ≤ final.operations then ⟨start, place, final, .close (place + 1)⟩
        else ⟨start, place + 1, final, .look⟩) none := by
  by_cases full : scope.limits.maxSize ≤ final.operations
  · simp only [full, if_true] at grew ⊢
    refine ⟨.close (Nat.lt_succ_of_le order) inside grown, by simp [distance], ?_⟩
    exact remaining_of_grow_eq_some grew (by omega)
  · simp only [full, if_false] at grew ⊢
    refine ⟨.look (Nat.le_succ_of_le order) inside grown, by simp [distance]; omega, ?_⟩
    simp only [remaining, grew]
    rfl

theorem Placed.advances_look (placed : Placed scope block ⟨start, place, window, .look⟩)
    (present : block.instructions[place]? = some instruction) :
    Advances scope block ⟨start, place, window, .look⟩
      (Scanner.look scope ⟨start, place, window, .look⟩ instruction) none := by
  obtain ⟨order, _, grown⟩ := placed
  obtain ⟨inside, _⟩ := List.getElem?_eq_some_iff.mp present
  have taken := taken_of_grown (Nat.le_of_lt inside) grown
  have begins : (window.taken == 0) = (place == start) := by
    rw [taken, Bool.eq_iff_iff, beq_iff_eq, beq_iff_eq]
    omega
  have grew := congrArg (grow scope window) (drop_eq_cons present)
  rw [grow, begins] at grew
  unfold Scanner.look
  by_cases first : (instruction.isTransparent && place == start) = true
  · obtain rfl : place = start := by simpa using (Bool.and_eq_true_iff.mp first).2
    simp only [first, if_true] at grew ⊢
    exact advances_pass inside grew
  simp only [first] at grew ⊢
  by_cases accepted : (instruction.isTransparent || window.admits scope instruction) = true
  · have next : Grown scope ((block.instructions.drop start).take (place + 1 - start))
        (window.take scope instruction) := by
      rw [take_drop_succ present order]
      refine grown.accept ?_ accepted
      rwa [begins]
    simp only [accepted] at grew ⊢
    exact advances_take order inside taken next grew
  · simp only [accepted] at grew ⊢
    by_cases begun : start < place
    · simp only [begun, if_true]
      exact advances_halt begun (Nat.le_of_lt inside) grown grew
    · obtain rfl : place = start := by omega
      simp only [begun]
      refine advances_pass inside ?_
      rw [grew, Window.ended, taken, Nat.sub_self]
      rfl

theorem Placed.advances_end (placed : Placed scope block ⟨start, place, window, .look⟩)
    (absent : block.instructions[place]? = none) (begun : start < place) :
    Advances scope block ⟨start, place, window, .look⟩ ⟨start, place, window, .close place⟩
      none := by
  obtain ⟨_, inside, grown⟩ := placed
  refine advances_halt begun inside grown ?_
  rw [List.drop_eq_nil_of_le (List.getElem?_eq_none_iff.mp absent), grow]

theorem Placed.lt_shut (placed : Placed scope block ⟨start, place, window, .close stop⟩) :
    start < ((Scanner.mk start place window (.close stop)).shut scope block stop).2 ∧
      ((Scanner.mk start place window (.close stop)).shut scope block stop).2 ≤
        block.instructions.length := by
  obtain _ | ⟨order, inside, grown⟩ := placed
  unfold shut
  cases waits : window.pending with
  | some allocation =>
    have earlier := grown.offset_lt waits
    rw [List.length_take] at earlier
    by_cases first : allocation.offset = 0
    · simp only [first, if_true]
      exact ⟨order, inside⟩
    · simp only [first, if_false]
      omega
  | none =>
    by_cases small : window.operations < scope.limits.minSize
    · simp only [small, if_true]
      omega
    · simp only [small, if_false]
      exact ⟨order, inside⟩

theorem Placed.advances_close (placed : Placed scope block ⟨start, place, window, .close stop⟩) :
    Advances scope block ⟨start, place, window, .close stop⟩
      ⟨start, place, window,
        .restart ((Scanner.mk start place window (.close stop)).shut scope block stop).2⟩
      ((Scanner.mk start place window (.close stop)).shut scope block stop).1 where
  placed := .restart placed.lt_shut.1 placed.lt_shut.2
  nearer := by simp [distance]
  finds := rfl

theorem Placed.advances_restart
    (placed : Placed scope block ⟨start, place, window, .restart stop⟩) :
    Advances scope block ⟨start, place, window, .restart stop⟩ (fresh stop) none := by
  obtain _ | _ | ⟨order, inside⟩ := placed
  refine ⟨.look (Nat.le_refl stop) inside (by simpa using .start), ?_, findsFrom_eq stop⟩
  have fewer := Nat.mul_le_mul_left (block.instructions.length + 3)
    (show block.instructions.length - stop + 1 ≤ block.instructions.length - start by omega)
  rw [Nat.mul_succ] at fewer
  simp only [distance, fresh]
  omega

theorem Placed.advances (placed : Placed scope block scanner)
    (goes : scanner.step scope block = some (next, found)) :
    Advances scope block scanner next found := by
  obtain ⟨start, place, window, task⟩ := scanner
  cases task with
  | look =>
    simp only [step] at goes
    split at goes
    · rename_i present
      cases goes
      exact placed.advances_look present
    · rename_i absent
      split at goes
      · rename_i begun
        cases goes
        exact placed.advances_end absent begun
      · cases goes
  | close stop =>
    cases goes
    exact placed.advances_close
  | restart stop =>
    cases goes
    exact placed.advances_restart

/-- Nothing is left to find where the scan stops. -/
theorem Placed.stopped (placed : Placed scope block scanner)
    (stops : scanner.step scope block = none) :
    scanner.task = .look ∧ scanner.start = block.instructions.length ∧
      scanner.place = block.instructions.length ∧ scanner.remaining scope block = [] := by
  cases placed with
  | @look start place window order inside grown =>
    simp only [step] at stops
    split at stops
    · cases stops
    · rename_i absent
      have reached : place = block.instructions.length :=
        Nat.le_antisymm inside (List.getElem?_eq_none_iff.mp absent)
      split at stops
      · cases stops
      · rename_i idle
        have taken := taken_of_grown inside grown
        refine ⟨rfl, by dsimp only; omega, reached, ?_⟩
        have none : window.taken = 0 := by omega
        rw [remaining_of_grow_eq_none, findsFrom, List.drop_eq_nil_of_le (by omega), scanAhead]
        rw [List.drop_eq_nil_of_le (by omega), grow, Window.ended, none]
  | close => cases stops
  | restart => cases stops

/-- What a scan has found, and what it has still to find, is what the recursion finds; the steps
that it has made and its distance from the end are bounded together. -/
theorem Runs.accounts (runs : Runs scope block steps founds scanner) :
    Placed scope block scanner ∧
      founds ++ scanner.remaining scope block = scanBlock scope block ∧
      steps + scanner.distance block.instructions.length ≤
        block.instructions.length * (block.instructions.length + 4) + 2 := by
  induction runs with
  | start =>
    refine ⟨.look (Nat.le_refl 0) (Nat.zero_le _) (by simpa using .start), ?_, ?_⟩
    · rw [← findsFrom_eq, List.nil_append, findsFrom, List.drop_zero, scanBlock]
    · simp only [distance, fresh, Nat.sub_zero, Nat.add_mul, Nat.mul_add]
      omega
  | step earlier goes inductionHypothesis =>
    obtain ⟨placed, accounted, bounded⟩ := inductionHypothesis
    have advances := placed.advances goes
    refine ⟨advances.placed, ?_, ?_⟩
    · rw [List.append_assoc, ← advances.finds, accounted]
    · have nearer := advances.nearer
      omega

theorem Runs.exists_stop (runs : Runs scope block steps founds scanner) :
    ∃ steps founds last, Runs scope block steps founds last ∧ last.step scope block = none := by
  induction size : scanner.distance block.instructions.length using Nat.strongRecOn
    generalizing steps founds scanner with
  | ind size inductionHypothesis =>
    cases goes : scanner.step scope block with
    | none => exact ⟨steps, founds, scanner, runs, goes⟩
    | some result =>
      have nearer := (runs.accounts.1.advances goes).nearer
      exact inductionHypothesis _ (size ▸ nearer) (runs.step goes) rfl

theorem Placed.two_le_distance (placed : Placed scope block scanner) :
    2 ≤ scanner.distance block.instructions.length := by
  cases placed with
  | look => exact Nat.le_add_left 2 _ |>.trans (Nat.le_add_left _ _)
  | @close start place stop window order inside | @restart start place stop window order inside =>
    have some : 1 ≤ block.instructions.length - start := by omega
    have much := Nat.mul_le_mul_left (block.instructions.length + 3) some
    simp only [distance]
    omega

end Scanner

/-- How the scan of a block comes to its end. -/
structure Ends (scope : Scope) (block : Block) : Prop where
  stops : ∃ steps founds last, Scanner.Runs scope block steps founds last ∧
    last.step scope block = none
  /-- Where the scan stops, it has found what the recursion over the block finds. -/
  finds : ∀ {steps founds last}, Scanner.Runs scope block steps founds last →
    last.step scope block = none →
      founds = scanBlock scope block ∧ last.start = block.instructions.length
  /-- The scan makes no more steps than this, however often it goes back. -/
  bounded : ∀ {steps founds scanner}, Scanner.Runs scope block steps founds scanner →
    steps ≤ block.instructions.length * (block.instructions.length + 4)
  /-- Windows start behind the start of the one before, and in the block. -/
  restarts : ∀ {steps founds scanner place}, Scanner.Runs scope block steps founds scanner →
    scanner.task = .restart place →
      scanner.start < place ∧ place ≤ block.instructions.length
  /-- No window is closed that is empty or reaches beyond the block. -/
  closes : ∀ {steps founds scanner stop}, Scanner.Runs scope block steps founds scanner →
    scanner.task = .close stop → scanner.start < stop ∧ stop ≤ block.instructions.length
  /-- Behind the last instruction the scan closes its window, or stops if that is empty. -/
  exhausted : ∀ {steps founds scanner}, Scanner.Runs scope block steps founds scanner →
    scanner.task = .look → block.instructions.length ≤ scanner.place →
      scanner.place = block.instructions.length ∧
        ((scanner.start < scanner.place ∧ scanner.step scope block =
            some ({ scanner with task := .close block.instructions.length }, none)) ∨
          (scanner.start = scanner.place ∧ scanner.step scope block = none))

/-- The scan of any block ends, whatever the limits. -/
theorem scan_ends (method : Method) (limits : Limits) (block : Block) :
    Ends (.ofMethod method limits) block := by
  constructor
  case stops => exact Scanner.Runs.start.exists_stop
  case finds =>
    intro steps founds last runs stops
    obtain ⟨placed, accounted, _⟩ := runs.accounts
    obtain ⟨_, reached, _, nothing⟩ := placed.stopped stops
    rw [nothing, List.append_nil] at accounted
    exact ⟨accounted, reached⟩
  case bounded =>
    intro steps founds scanner runs
    obtain ⟨placed, _, bounded⟩ := runs.accounts
    have distant := placed.two_le_distance
    omega
  case restarts =>
    rintro steps founds ⟨start, place, window, task⟩ next runs rfl
    cases runs.accounts.1 with
    | restart order inside => exact ⟨order, inside⟩
  case closes =>
    rintro steps founds ⟨start, place, window, task⟩ stop runs rfl
    cases runs.accounts.1 with
    | close order inside => exact ⟨order, inside⟩
  case exhausted =>
    rintro steps founds ⟨start, place, window, task⟩ runs rfl read
    cases runs.accounts.1 with
    | look order inside =>
      obtain rfl : place = block.instructions.length := Nat.le_antisymm inside read
      refine ⟨rfl, ?_⟩
      rcases Nat.lt_or_eq_of_le order with begun | idle
      · refine .inl ⟨begun, ?_⟩
        simp [Scanner.step, begun]
      · refine .inr ⟨idle, ?_⟩
        simp [Scanner.step, idle]

/-- A method with too few operations for a window of three. -/
def addsTwice : Method where
  index := 0
  reference := ⟨⟨"LA;"⟩, "m", ⟨.int, [.int, .int]⟩⟩
  types := List.replicate 4 (.number .int)
  blocks := [⟨0, [⟨.arithmetic .add .int, [0, 1], some 2, none⟩,
    ⟨.arithmetic .add .int, [2, 1], some 3, none⟩, ⟨.ret, [3], none, none⟩], [], []⟩]
  synthetic := false

/-- The scan has come to the third instruction when it goes back to the second. -/
theorem scan_of_addsTwice : ∃ block ∈ addsTwice.blocks, ∃ scanner,
    Scanner.Runs (.ofMethod addsTwice ⟨3, 9, 9, false⟩) block 4 [] scanner ∧
      scanner.place = 2 ∧ scanner.task = .restart 1 ∧ scanner.start < 1 ∧
      Ends (.ofMethod addsTwice ⟨3, 9, 9, false⟩) block := by
  have ends := scan_ends addsTwice ⟨3, 9, 9, false⟩ addsTwice.blocks[0]
  have one := @Scanner.Runs.step _ _ _ _ _ _ none
    (@Scanner.Runs.start (.ofMethod addsTwice ⟨3, 9, 9, false⟩) addsTwice.blocks[0]) rfl
  have two := @Scanner.Runs.step _ _ _ _ _ _ none one rfl
  have three := @Scanner.Runs.step _ _ _ _ _ _ none two rfl
  have four := @Scanner.Runs.step _ _ _ _ _ _ none three rfl
  exact ⟨_, List.getElem_mem _, _, four, rfl, rfl, (ends.restarts four rfl).1, ends⟩

end Outlining.Window
