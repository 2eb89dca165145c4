import Outlining.Proofs.Bytecode.Root
import Outlining.Proofs.Pipeline.Run
import Outlining.Proofs.Window.Bounds
import Outlining.Proofs.Window.Outline

/-! On a valid program with well-formed descriptors no check of the pipeline ever fails: windows
break no assertion, their templates have outlines, and the rewriting step finds every site that was
recorded. -/
namespace Outlining.Pipeline

open Outlining.Bytecode Outlining.Template Outlining.Window

variable {options : Options} {program : Program} {method : Method} {limits : Limits}
  {candidate : Candidate}

/-- Whether allocations have no operands. -/
def AllocatesBare (method : Method) : Prop :=
  ∀ instruction ∈ method.instructions, ∀ cls, instruction.opcode = .allocate cls →
    instruction.operands = []

theorem AllocatesBare.bare (bare : AllocatesBare method) : Bare method.instructions := by
  intro instruction member role
  obtain ⟨cls, _, opcode, _⟩ := Instruction.role_eq_allocation_iff.mp role
  exact bare instruction member cls opcode

theorem AllocatesBare.sound (bare : AllocatesBare method) (limits : Limits) :
    Sound limits method :=
  fun _ member => exists_candidate_of_mem_scan bare.bare member

theorem windowOf_eq (labelled : Labelled method) (found : candidate ∈ found limits method) :
    ∃ block ∈ method.blocks, method.blocks[candidate.block]? = some block ∧
      ∃ before taken after window, block.instructions = before ++ taken ++ after ∧ taken ≠ [] ∧
        Closed (.ofMethod method limits) block.label before.length taken window candidate ∧
        windowOf method candidate = trim taken := by
  obtain ⟨block, present, before, taken, after, window, split, begun, closed⟩ :=
    closed_of_mem_scan (mem_found_iff.mp found)
  have placed : method.blocks[candidate.block]? = some block := by
    rw [closed.same]
    exact labelled.getElem? present
  refine ⟨block, present, placed, before, taken, after, window, split, begun, closed, ?_⟩
  unfold windowOf
  rw [placed]
  simp only [split, closed.same, Nat.add_sub_cancel_left]
  exact drop_take_trim

/-- What is asked of a program that is outlined. -/
structure Admissible (program : Program) : Prop where
  valid : program.complaint? = none
  bare : ∀ method ∈ program.methods, AllocatesBare method
  typed : ∀ method ∈ program.methods, method.IsTyped

theorem valid_of_mem (valid : program.complaint? = none) (member : method ∈ program.methods) :
    method.defect? = none := by
  obtain ⟨place, found⟩ := List.mem_iff_getElem?.mp member
  exact ((Program.complaint?_eq_none_iff program).mp valid place method found).2

theorem minSize_pos (fit : options.defect? = none) : 0 < options.limits.minSize := by
  unfold Options.defect? at fit
  split at fit
  · cases fit
  · rename_i positive
    exact Nat.pos_of_ne_zero positive

/-- A window that has an outline passes the checks before it is replaced. -/
theorem replaceable_of_hit (labelled : Labelled method) {made : List (Outline × Method)}
    {type : Descriptor} {stem : String} {first : MethodIndex}
    {templates : List (TemplateIndex × Template)}
    (builds : Holder.outlines type stem first 0 templates = .ok made)
    {hit : Outline × Candidate}
    (member : hit ∈ hits (made.map (·.1)) (found limits method)) : Replaceable method hit := by
  obtain ⟨outline, candidate⟩ := hit
  simp only [hits, List.mem_filterMap] at member
  obtain ⟨other, present, known⟩ := member
  obtain ⟨_, known, same⟩ := Option.map_eq_some_iff.mp known
  cases same
  obtain ⟨block, _, _, before, taken, after, window, split, begun, closed, covered⟩ :=
    windowOf_eq labelled present
  obtain ⟨last, ends, operates⟩ := exists_last closed.grown (closed.grown.operations_pos begun)
  refine ⟨?_, by rw [covered, ends]; exact operates⟩
  obtain ⟨result, listed, rfl⟩ := List.mem_map.mp (List.mem_of_find?_eq_some known)
  obtain ⟨place, listed⟩ := List.mem_iff_getElem?.mp listed
  obtain ⟨entry, _, known'⟩ := (Holder.made_of_outlines builds place).1 result listed
  have template : result.1.template = candidate.template := by
    simpa using List.find?_some known
  rw [known'.outline] at template ⊢
  dsimp only at template ⊢
  rw [template, closed.same]
  simp [Window.template]

theorem mem_instructions_of_split {block : Block} (present : block ∈ method.blocks)
    {before taken after : List Instruction} (split : block.instructions = before ++ taken ++ after)
    {instruction : Instruction} (member : instruction ∈ taken) :
    instruction ∈ method.instructions :=
  List.mem_flatMap.mpr ⟨block, present, by simp [split, member]⟩

theorem outlinable_of_found (typed : method.IsTyped) (present : candidate ∈ found limits method) :
    Wirable candidate.template ∧ ∀ reference index,
      ∃ body, candidate.template.body reference index = .ok body := by
  obtain ⟨block, inside, before, taken, after, window, split, _, closed⟩ :=
    closed_of_mem_scan (mem_found_iff.mp present)
  have well : ∀ instruction ∈ taken, instruction.IsTyped := fun instruction member =>
    typed.instructions instruction (mem_instructions_of_split inside split member)
  have wirable := closed.wirable typed well
  refine ⟨wirable, fun reference index => ?_⟩
  obtain ⟨types, more, -, body⟩ := body_eq_ok wirable (closed.isTyped_arguments typed well)
    (closed.isTyped_operations well) reference index
  exact ⟨_, body⟩

theorem exists_found_of_mem_templatesOf {entry : TemplateIndex × Template}
    (member : entry ∈ templatesOf options program) :
    ∃ method ∈ program.methods, ∃ candidate ∈ found options.limits method,
      candidate.template = entry.2 := by
  obtain ⟨listed, place, same, _⟩ := Ledger.mem_select_iff.mp member
  have known := ((accounts_ledgerOf options program).covers entry.2).mp
    (same ▸ List.mem_map_of_mem (List.mem_of_getElem? place))
  obtain ⟨site, recorded, same⟩ := List.mem_map.mp known
  obtain ⟨method, chosen, recorded⟩ := List.mem_flatMap.mp recorded
  obtain ⟨candidate, present, rfl⟩ := List.mem_map.mp recorded
  exact ⟨method, (List.mem_filter.mp chosen).1, candidate, present, same⟩

theorem exists_builds (admissible : Admissible program)
    (few : program.methods.length + (templatesOf options program).length < Holder.indexLimit) :
    ∃ made, Builds options program made := by
  refine Holder.exists_outlines (fun entry member => ?_) (Nat.le_of_lt few)
  obtain ⟨method, inside, candidate, present, same⟩ := exists_found_of_mem_templatesOf member
  rw [← same]
  exact outlinable_of_found (admissible.typed method inside) present

/-- The outlines made for templates of a ledger have the sites recorded for their templates. -/
theorem accounts_of_outlines {ledger : Ledger} {recorded : List (Template × Site)}
    (accounts : ledger.Accounts recorded) {type : Descriptor} {stem : String}
    {first : MethodIndex} {threshold : Nat} {made : List (Outline × Method)}
    (built : Holder.outlines type stem first 0 (ledger.select threshold) = .ok made) :
    (∀ outline ∈ made.map (·.1),
      ledger.sites outline.index = sitesOf recorded outline.template) ∧
    ∀ left ∈ made.map (·.1), ∀ right ∈ made.map (·.1),
      left.index = right.index ↔ left.template = right.template := by
  have selected : ∀ outline ∈ made.map (·.1),
      (outline.index, outline.template) ∈ ledger.select threshold := by
    intro outline member
    obtain ⟨result, listed, rfl⟩ := List.mem_map.mp member
    obtain ⟨place, found⟩ := List.mem_iff_getElem?.mp listed
    obtain ⟨entry, known, making⟩ := (Holder.made_of_outlines built place).1 result found
    rw [making.outline]
    exact List.mem_of_getElem? known
  exact ⟨fun outline member => accounts.sites_select (selected outline member),
    fun left leftMember right rightMember =>
      accounts.index_eq_iff (selected left leftMember) (selected right rightMember)⟩

/-- The sites of all outlines are found one after the other, and none is left. -/
theorem exists_struck_of_builds {made : List (Outline × Method)} (builds : Builds options program made) :
    ∃ ledger, (ledgerOf options program).strikeAll? (allStrikes (made.map (·.1)) options.limits
        (chosen (selectionOf options program) program)) = some ledger ∧
      ∀ outline ∈ made.map (·.1), ledger.sites outline.index = [] := by
  obtain ⟨accounts, distinct⟩ := accounts_of_outlines (accounts_ledgerOf options program) builds
  rw [allStrikes_eq]
  exact exists_strikeAll accounts distinct

/-- A run on a valid program returns if outlines can be made for all templates that get one. -/
theorem exists_run_of_builds (valid : program.complaint? = none) (sound : AllSound options program)
    {made : List (Outline × Method)} (builds : Builds options program made) :
    ∃ returned final, run.run (start options program) = .ok returned final := by
  cases enabled : options.enabled with
  | false => exact ⟨none, start options program, run_of_disabled enabled⟩
  | true =>
    simp only [run_eq_ok_iff enabled sound]
    cases used : (ledgerOf options program).isEmpty with
    | true => exact ⟨_, _, .inl ⟨rfl, rfl, rfl⟩⟩
    | false =>
      by_cases empty : made = []
      · exact ⟨_, _, .inr ⟨rfl, made, builds, .inl ⟨empty, rfl, rfl⟩⟩⟩
      · obtain ⟨ledger, struck, none⟩ := exists_struck_of_builds builds
        refine ⟨_, _, .inr ⟨rfl, made, builds, .inr ⟨empty, rfl, ledger, struck, ?_, rfl, fun _ =>
          leftover?_eq_none_iff.mpr none⟩⟩⟩
        intro method member hit present
        have inside := (List.mem_filter.mp member).1
        exact replaceable_of_hit (labelled_of_valid (valid_of_mem valid inside)) builds present

theorem exists_run (admissible : Admissible program)
    (few : program.methods.length + (templatesOf options program).length < Holder.indexLimit) :
    ∃ returned final, run.run (start options program) = .ok returned final := by
  obtain ⟨made, builds⟩ := exists_builds admissible few
  exact exists_run_of_builds admissible.valid
    (fun method member _ => (admissible.bare method member).sound options.limits) builds

/-- A run on a valid program with well-formed descriptors raises no fault: it returns, its windows
lie inside their blocks, what it looks up lies inside the table of values, and what it counts fits
into 32 bits. -/
theorem run_raises_no_fault {options : Options} {program : Program}
    (valid : program.complaint? = none) (fit : options.defect? = none)
    (bare : ∀ method ∈ program.methods, AllocatesBare method)
    (typed : ∀ method ∈ program.methods, method.IsTyped)
    (few : program.methods.length + (templatesOf options program).length < 2 ^ 32)
    (small : ∀ method ∈ program.methods, method.reads.length ^ 2 < 2 ^ 32) :
    (∃ returned final, run.run (start options program) = .ok returned final) ∧
    ∀ method ∈ program.methods,
      (∀ found ∈ method.scan options.limits, ∃ candidate block, found = .ok candidate ∧
        method.blocks[candidate.block]? = some block ∧ candidate.start < candidate.stop ∧
        candidate.stop ≤ block.instructions.length) ∧
      (∀ value < method.types.length,
        (Usage.ofMethod method).root value < method.types.length) ∧
      ∀ block ∈ method.blocks, ∀ before taken after window temporary,
        block.instructions = before ++ taken ++ after →
        Grown (.ofMethod method options.limits) taken window →
        window.temporary = some temporary → temporary.readsLeft < 2 ^ 32 := by
  refine ⟨exists_run ⟨valid, bare, typed⟩ few, fun method inside => ⟨?_, ?_, ?_⟩⟩
  · intro result member
    obtain ⟨candidate, rfl⟩ := (bare method inside).sound options.limits result member
    obtain ⟨block, _, placed, before, taken, after, window, split, _, closed, _⟩ :=
      windowOf_eq (labelled_of_valid (valid_of_mem valid inside)) (mem_found_iff.mpr member)
    obtain ⟨last, ends, _⟩ :=
      exists_last closed.grown (Nat.lt_of_lt_of_le (minSize_pos fit) closed.large)
    have some := List.length_pos_of_mem (List.mem_of_getLast? ends)
    have most := congrArg List.length (trim_append_trailing taken)
    refine ⟨candidate, block, rfl, placed, ?_, ?_⟩
    · rw [closed.same]
      exact Nat.lt_add_of_pos_right some
    · rw [closed.same, split]
      simp only [List.length_append] at most ⊢
      omega
  · intro value known
    refine root_lt (fun instruction member operand read => ?_) known
    exact lt_of_valid (valid_of_mem valid inside) member (List.mem_append_left _ read)
  · exact countsFit_of_small (small method inside) options.limits

/-- A method that adds its arguments and refines the sum. -/
def refinesSum : Method where
  index := 0
  reference := ⟨⟨"LA;"⟩, "m", ⟨.void, [.int, .int]⟩⟩
  types := [.number .int, .number .int, .number .int, .number .int]
  blocks := [⟨0, [⟨.argument 0, [], some 0, none⟩, ⟨.argument 1, [], some 1, none⟩,
    ⟨.arithmetic .add .int, [0, 1], some 2, none⟩, ⟨.refine, [2], some 3, none⟩,
    ⟨.ret, [], none, none⟩], [], []⟩]
  synthetic := false

/-- Options under which every window gets an outline. -/
def eager : Options :=
  { Options.standard 1 with minSize := 1, methodThreshold := 1, siteThreshold := 1 }

theorem exists_run_refinesSum :
    ∃ returned final, run.run (start eager ⟨[refinesSum]⟩) = .ok returned final := by
  refine (run_raises_no_fault (by decide) (by decide) ?_ ?_ (by decide +kernel) ?_).1
  · simp [AllocatesBare, Method.instructions, refinesSum]
  · intro method member
    obtain rfl := List.mem_singleton.mp member
    exact ⟨by simp [refinesSum, ValueType.IsTyped],
      by simp [refinesSum, Method.instructions, Instruction.IsTyped]⟩
  · intro method member
    obtain rfl := List.mem_singleton.mp member
    decide

end Outlining.Pipeline
