import Mathlib.Data.List.Forall2
import Mathlib.Data.List.Nodup
import Mathlib.Data.List.Pairwise
import Outlining.Proofs.Rewriting.Entry
import Outlining.Proofs.Rewriting.Validity

/-! A guarded block is divided after each call. Its parts form a chain: each part but the last jumps
to the next one and nowhere else, the last one goes where the block went before, and all have the
handlers of the block. A block that is not guarded stays in one part. -/
namespace Outlining.Rewriting

open Outlining.Bytecode

variable {place : Nat} {original rewritten : List Instruction} {edits : List Edit}
  {edit : Edit} {replaces : List Instruction → Edit → Prop} {instruction : Instruction}
  {line : List Entry}

/-- Cuts entries after each call: the entries up to each call, and those behind the last one. -/
def cut : List Entry → List (List Entry) × List Entry
  | [] => ([], [])
  | .call edit :: rest => ([.call edit] :: (cut rest).1, (cut rest).2)
  | .kept survivor :: rest =>
    match cut rest with
    | ([], final) => ([], .kept survivor :: final)
    | (segment :: segments, final) => ((.kept survivor :: segment) :: segments, final)

/-- The parts into which a block is divided. Nothing is left behind a call that ends the block. -/
def divide (guarded : Bool) (line : List Entry) : List (List Entry) :=
  if guarded then
    match cut line with
    | (first :: rest, []) => first :: rest
    | (segments, final) => segments ++ [final]
  else [line]

def partsOf (edits : List Edit) (block : Block) : List (List Entry) :=
  divide block.isGuarded (entries (editsOf edits block.label) 0 block.instructions)

theorem flatten_cut (line : List Entry) : (cut line).1.flatten ++ (cut line).2 = line := by
  induction line with
  | nil => rfl
  | cons entry line inductionHypothesis =>
    cases entry with
    | call edit =>
      rw [cut, List.flatten_cons, List.append_assoc, inductionHypothesis]
      rfl
    | kept survivor =>
      rw [cut]
      generalize cut line = parts at inductionHypothesis
      obtain ⟨segments, final⟩ := parts
      cases segments with
      | nil => exact congrArg (_ :: ·) inductionHypothesis
      | cons segment segments => exact congrArg (_ :: ·) inductionHypothesis

/-- Whether a part ends with a call. -/
def EndsWithCall (part : List Entry) : Prop := ∃ edit, part.getLast? = some (.call edit)

def CallsLast (part : List Entry) : Prop := part.dropLast.filterMap Entry.call? = []

/-- Every segment has a call at its end and nowhere else, and what is left has none. -/
theorem calls_cut (line : List Entry) :
    (∀ segment ∈ (cut line).1, EndsWithCall segment ∧ CallsLast segment) ∧
      (cut line).2.filterMap Entry.call? = [] := by
  induction line with
  | nil => exact ⟨nofun, rfl⟩
  | cons entry line inductionHypothesis =>
    obtain ⟨ends, none⟩ := inductionHypothesis
    cases entry with
    | call edit => exact ⟨List.forall_mem_cons.mpr ⟨⟨⟨edit, rfl⟩, rfl⟩, ends⟩, none⟩
    | kept survivor =>
      rw [cut]
      generalize cut line = parts at ends none
      obtain ⟨segments, final⟩ := parts
      cases segments with
      | nil => exact ⟨nofun, none⟩
      | cons segment segments =>
        obtain ⟨⟨⟨edit, last⟩, plain⟩, others⟩ := List.forall_mem_cons.mp ends
        refine ⟨List.forall_mem_cons.mpr ⟨⟨⟨edit, ?_⟩, ?_⟩, others⟩, none⟩
        · rw [List.getLast?_cons, last, Option.getD_some]
        · cases segment with
          | nil => rfl
          | cons entry segment => exact plain

theorem callsLast_of_noCalls (none : line.filterMap Entry.call? = []) : CallsLast line := by
  rw [List.filterMap_eq_nil_iff] at none
  exact List.filterMap_eq_nil_iff.mpr fun entry member =>
    none entry (List.dropLast_subset _ member)

theorem flatten_divide (guarded : Bool) (line : List Entry) :
    (divide guarded line).flatten = line := by
  have whole := flatten_cut line
  unfold divide
  split
  · split
    · rename_i first rest known
      rwa [known, List.append_nil] at whole
    · rename_i segments final _ known
      rw [known] at whole
      rwa [List.flatten_append, List.flatten_singleton]
  · exact List.flatten_singleton

theorem cut_of_noCalls (none : line.filterMap Entry.call? = []) : cut line = ([], line) := by
  induction line with
  | nil => rfl
  | cons entry line inductionHypothesis =>
    cases entry with
    | call edit => cases none
    | kept survivor => rw [cut, inductionHypothesis none]

theorem divide_of_noCalls (none : line.filterMap Entry.call? = []) (guarded : Bool) :
    divide guarded line = [line] := by
  rw [divide, cut_of_noCalls none]
  split <;> rfl

theorem callsLast_of_mem_divide {part : List Entry} (member : part ∈ divide true line) :
    CallsLast part := by
  obtain ⟨ends, plain⟩ := calls_cut line
  rw [divide, if_pos rfl] at member
  split at member
  · rename_i first rest known
    exact (ends part (known ▸ member)).2
  · rename_i segments final _ known
    rw [known] at ends plain
    rcases List.mem_append.mp member with listed | last
    · exact (ends part listed).2
    · exact List.mem_singleton.mp last ▸ callsLast_of_noCalls plain

theorem endsWithCall_of_mem_divide {part : List Entry}
    (member : part ∈ (divide true line).dropLast) : EndsWithCall part := by
  have ends := (calls_cut line).1
  rw [divide, if_pos rfl] at member
  split at member
  · rename_i first rest known
    exact (ends part (known ▸ List.dropLast_subset _ member)).1
  · rename_i segments final _ known
    rw [known] at ends
    rw [List.dropLast_concat] at member
    exact (ends part member).1

/-! ## What the edits cut -/

theorem cut_append_call (stays : List (Instruction × Nat)) (edit : Edit) (rest : List Entry) :
    cut (stays.map .kept ++ .call edit :: rest) =
      ((stays.map .kept ++ [.call edit]) :: (cut rest).1, (cut rest).2) := by
  induction stays with
  | nil => rfl
  | cons entry stays inductionHypothesis =>
    rw [List.map_cons, List.cons_append, cut, inductionHypothesis]
    rfl

/-- The instructions of entries that were cut. -/
def render (parts : List (List Entry) × List Entry) : List (List Instruction) × List Instruction :=
  parts.map (List.map (List.map (·.instruction))) (List.map (·.instruction))

/-- The edits cut a block as its entries are cut. -/
theorem Spliced.splice_eq (result : Spliced replaces place original edits rewritten)
    (spans : Spans replaces) :
    splice place edits original = render (cut (entries edits place original)) := by
  induction result with
  | done => rfl
  | @keep place original rewritten edits instruction rest inductionHypothesis =>
    rw [entries_cons fun edit member => (rest.le_start edit member).1, cut,
      splice_cons instruction rest.le_start, inductionHypothesis]
    obtain ⟨segments, final⟩ := cut (entries edits (place + 1) original)
    cases segments <;> rfl
  | @replace window original rewritten edit edits replaced stops rest inductionHypothesis =>
    obtain ⟨front, last, rfl⟩ := spans.exists_last replaced
    rw [List.length_append, List.length_singleton] at stops
    rw [List.append_assoc, List.singleton_append, entries_window stops, cut_append_call]
    have width : edit.stop - edit.start = front.length + 1 := by omega
    have taken : windowOf edit edit.start (front ++ last :: original) = front ++ [last] := by
      rw [windowOf, Nat.sub_self, List.drop_zero, width, List.append_cons,
        List.take_left' (by simp)]
    have left : kept (front ++ [last]) = (literals edit.start front).map Prod.fst := by
      rw [map_fst_literals, kept, List.dropLast_concat]
    rw [splice, taken, left]
    simp [width, inductionHypothesis, render, Entry.instruction]

theorem divide_ne_nil (guarded : Bool) (line : List Entry) : divide guarded line ≠ [] := by
  unfold divide
  split
  · split <;> simp
  · simp

/-- The segments of an edited block, and what is left behind them, are its parts. -/
theorem Spliced.joined_eq (result : Spliced replaces place original edits rewritten)
    (spans : Spans replaces) (edited : edits ≠ []) :
    (splice place edits original).1 ++
        (if (splice place edits original).2.isEmpty then []
          else [(splice place edits original).2]) =
      (divide true (entries edits place original)).map (List.map (·.instruction)) := by
  have whole := flatten_cut (entries edits place original)
  have plain := (calls_cut (entries edits place original)).2
  rw [result.splice_eq spans, divide, if_pos rfl]
  rcases known : cut (entries edits place original) with ⟨segments, final⟩
  rw [known] at whole plain
  cases segments with
  | nil =>
    -- without a segment there is no call, so that there was no edit
    rw [← result.filterMap_call? spans, ← whole] at edited
    exact absurd plain edited
  | cons first rest => cases final <;> simp [render]

theorem Spliced.spliced_eq_map (result : Spliced replaces place original edits rewritten)
    (spans : Spans replaces) :
    spliced place edits original = (entries edits place original).map (·.instruction) := by
  conv_rhs => rw [← flatten_cut (entries edits place original)]
  rw [spliced, result.splice_eq spans]
  simp [render, List.map_flatten]

/-! ## Chains of blocks -/

/-- The blocks from one on that hold some parts, one after the other: each but the last jumps to
the next one, and all have the same handlers. -/
inductive Chain (blocks : List Block) (handlers : List Handler) (successors : List Label) :
    Label → List Label → List (List Instruction) → Prop where
  | last {label : Label} {part : List Instruction}
      (found : blocks[label]? = some ⟨label, part, successors, handlers⟩) :
      Chain blocks handlers successors label [] [part]
  | link {label next : Label} {labels : List Label} {part : List Instruction}
      {parts : List (List Instruction)}
      (found : blocks[label]? = some ⟨label, part ++ [jump], [next], handlers⟩)
      (rest : Chain blocks handlers successors next labels parts) :
      Chain blocks handlers successors label (next :: labels) (part :: parts)

variable {blocks parts : List Block} {handlers : List Handler} {successors : List Label}
  {label here : Label} {block : Block}

namespace Chain

variable {labels : List Label} {parts : List (List Instruction)}
  (chain : Chain blocks handlers successors label labels parts)
include chain

theorem labels_eq_nil (single : parts.length = 1) : labels = [] := by
  cases chain with
  | last found => rfl
  | link found rest =>
    cases rest with
    | last found => simp at single
    | link found rest => simp at single

/-- Changing the instructions of all blocks changes the parts, if jumps stay as they are. -/
theorem map {change : Instruction → Instruction} (keeps : change jump = jump) :
    Chain (blocks.map fun block => { block with instructions := block.instructions.map change })
      handlers successors label labels (parts.map (List.map change)) := by
  induction chain with
  | last found => exact .last (by rw [List.getElem?_map, found, Option.map_some])
  | link found rest inductionHypothesis =>
    refine .link ?_ inductionHypothesis
    rw [List.getElem?_map, found, Option.map_some, List.map_append, List.map_singleton, keeps]

/-- From each block of a chain control goes to the next one, or where it went before. -/
theorem exists_block {index : Nat} (known : (label :: labels)[index]? = some here) :
    ∃ part targets, blocks[here]? = some ⟨here, part, targets, handlers⟩ ∧
      (targets = successors ∨ ∃ next, labels[index]? = some next ∧ targets = [next]) := by
  induction chain generalizing index with
  | last found =>
    cases index with
    | zero =>
      cases known
      exact ⟨_, _, found, .inl rfl⟩
    | succ index => cases known
  | link found rest inductionHypothesis =>
    cases index with
    | zero =>
      cases known
      exact ⟨_, _, found, .inr ⟨_, rfl, rfl⟩⟩
    | succ index => exact inductionHypothesis known

end Chain

/-- Whether some parts stand at their labels. -/
def Standing (blocks parts : List Block) : Prop :=
  ∀ part ∈ parts, blocks[part.label]? = some part

theorem standing_cons {more : List Block} : Standing blocks (block :: more) ↔
    blocks[block.label]? = some block ∧ Standing blocks more :=
  List.forall_mem_cons

theorem standing_append {more : List Block} : Standing blocks (parts ++ more) ↔
    Standing blocks parts ∧ Standing blocks more :=
  List.forall_mem_append

theorem chain_of_standing (first : List Instruction) (rest : List (List Instruction))
    (found : blocks[here]? = some ⟨here, (chain handlers successors label first rest).1,
      (chain handlers successors label first rest).2.1, handlers⟩)
    (standing : Standing blocks (chain handlers successors label first rest).2.2) :
    Chain blocks handlers successors here
      ((chain handlers successors label first rest).2.2.map (·.label)) (first :: rest) := by
  induction rest generalizing label here first with
  | nil => exact .last found
  | cons next rest inductionHypothesis =>
    rw [chain] at found standing ⊢
    obtain ⟨after, later⟩ := standing_cons.mp standing
    exact .link found (inductionHypothesis next after later)

/-- The parts of an edited block form a chain. -/
theorem chain_rewriteBlock (result : Spliced replaces 0 block.instructions edits rewritten)
    (spans : Spans replaces) (edited : edits ≠ [])
    (standing : Standing blocks
      ((rewriteBlock edits label block).1 :: (rewriteBlock edits label block).2)) :
    Chain blocks block.handlers block.successors block.label
      ((rewriteBlock edits label block).2.map (·.label))
      ((divide block.isGuarded (entries edits 0 block.instructions)).map
        (List.map (·.instruction))) := by
  obtain ⟨found, later⟩ := standing_cons.mp standing
  rw [(labels_rewriteBlock edits label block).1] at found
  unfold rewriteBlock at found later ⊢
  by_cases guarded : block.isGuarded = true
  · rcases known : splice 0 edits block.instructions with ⟨segments, final⟩
    have joined := result.joined_eq spans edited
    simp only [known, guarded, if_true] at found later joined ⊢
    rw [← joined]
    split at found
    · rename_i none
      exact absurd (joined.symm.trans none) (by simpa using divide_ne_nil _ _)
    · rename_i first rest some
      simp only [some] at later ⊢
      exact chain_of_standing first rest found later
  · have whole := result.spliced_eq_map spans
    simp only [spliced] at whole
    simp only [guarded, Bool.false_eq_true, if_false, whole] at found ⊢
    exact .last found

/-- The blocks of a method form one chain each, and together the chains have all fresh blocks. -/
theorem exists_chains {list : List Block} (spans : Spans replaces)
    (spliced : ∀ block ∈ list, ∃ rewritten,
      Spliced replaces 0 block.instructions (editsOf edits block.label) rewritten)
    (standing : Standing blocks ((rewriteBlocks edits label list).1 ++
      (rewriteBlocks edits label list).2)) :
    ∃ fresh : List (List Label),
      fresh.flatten = (rewriteBlocks edits label list).2.map (·.label) ∧
      list.Forall₂ (fun block labels => Chain blocks block.handlers block.successors block.label
        labels ((partsOf edits block).map (List.map (·.instruction)))) fresh := by
  induction list generalizing label with
  | nil => exact ⟨[], rfl, .nil⟩
  | cons head list inductionHypothesis =>
    obtain ⟨⟨rewritten, result⟩, others⟩ := List.forall_mem_cons.mp spliced
    rw [rewriteBlocks] at standing ⊢
    unfold partsOf at inductionHypothesis ⊢
    cases edited : editsOf edits head.label with
    | nil =>
      rw [edited] at result
      simp only [edited, List.cons_append, standing_cons] at standing ⊢
      obtain ⟨found, later⟩ := standing
      obtain ⟨fresh, known, chains⟩ := inductionHypothesis others later
      refine ⟨[] :: fresh, known, .cons ?_ chains⟩
      rw [edited, divide_of_noCalls (result.filterMap_call? spans), List.map_singleton,
        ← result.spliced_eq_map spans]
      exact .last found
    | cons edit rest =>
      rw [edited] at result
      simp only [edited, standing_append, standing_cons] at standing ⊢
      obtain ⟨⟨first, before⟩, split, behind⟩ := standing
      obtain ⟨fresh, known, chains⟩ :=
        inductionHypothesis others (standing_append.mpr ⟨before, behind⟩)
      refine ⟨(rewriteBlock (edit :: rest) label head).2.map (·.label) :: fresh, ?_,
        .cons ?_ chains⟩
      · rw [List.flatten_cons, known, List.map_append]
      · rw [edited]
        exact chain_rewriteBlock result spans (List.cons_ne_nil _ _)
          (standing_cons.mpr ⟨first, split⟩)

/-- The blocks of a method after its edits: each block has become a chain, and the fresh blocks of
all chains follow the old blocks. -/
theorem exists_chains_apply {method : Method} (labelled : Labelled method) (usage : Usage)
    (spans : Spans replaces) (spliced : ∀ block ∈ method.blocks, ∃ rewritten,
      Spliced replaces 0 block.instructions (editsOf edits block.label) rewritten) :
    ∃ fresh : List (List Label),
      List.range method.blocks.length ++ fresh.flatten =
        List.range (apply edits usage method).blocks.length ∧
      method.blocks.Forall₂ (fun block labels =>
        Chain (apply edits usage method).blocks block.handlers block.successors block.label labels
          ((partsOf edits block).map (List.map fun entry =>
            redirect (refinedBy (removedFrom edits method)) usage entry.instruction))) fresh := by
  have standing : Standing ((rewriteBlocks edits method.blocks.length method.blocks).1 ++
      (rewriteBlocks edits method.blocks.length method.blocks).2)
      ((rewriteBlocks edits method.blocks.length method.blocks).1 ++
        (rewriteBlocks edits method.blocks.length method.blocks).2) := by
    intro part listed
    obtain ⟨place, found⟩ := List.mem_iff_getElem?.mp listed
    rwa [label_of_rewriteBlocks labelled edits found]
  obtain ⟨fresh, known, chains⟩ := exists_chains spans spliced standing
  have count : (apply edits usage method).blocks.length =
      method.blocks.length + (rewriteBlocks edits method.blocks.length method.blocks).2.length := by
    simp [apply, length_rewriteBlocks]
  refine ⟨fresh, ?_, chains.imp fun block labels chain => ?_⟩
  · rw [known, (labels_rewriteBlocks edits method.blocks.length method.blocks).2, count,
      List.range_eq_range', List.range_eq_range', ← List.range'_append_1, Nat.zero_add]
  · have keeps : redirect (refinedBy (removedFrom edits method)) usage jump = jump := by
      simp [redirect, jump]
    have changed := chain.map keeps
    simp only [List.map_map, Function.comp_def] at changed
    exact changed

/-! ## Where control enters a part -/

section Fresh

variable {method : Method} {fresh : List (List Label)} {next : Label}
  (known : List.range method.blocks.length ++ fresh.flatten = List.range blocks.length)
include known

theorem nodup_fresh : fresh.flatten.Nodup ∧ ∀ next ∈ fresh.flatten,
    method.blocks.length ≤ next := by
  have distinct : (List.range method.blocks.length ++ fresh.flatten).Nodup :=
    known ▸ List.nodup_range
  obtain ⟨_, alone, apart⟩ := List.nodup_append.mp distinct
  refine ⟨alone, fun next member => ?_⟩
  by_contra below
  exact apart next (List.mem_range.mpr (Nat.not_le.mp below)) next member rfl

variable (paired : method.blocks.length = fresh.length)
include paired

theorem eq_of_mem_fresh {left right : Block × List Label}
    (listed : left ∈ method.blocks.zip fresh) (alsoListed : right ∈ method.blocks.zip fresh)
    (member : next ∈ left.2) (alsoMember : next ∈ right.2) : left = right := by
  have apart := (List.nodup_flatten.mp (nodup_fresh known).1).2
  rw [← List.map_snd_zip (Nat.le_of_eq paired.symm), List.pairwise_map] at apart
  have symmetric : Std.Symm fun left right : Block × List Label => left.2.Disjoint right.2 :=
    ⟨fun _ _ apart _ member also => apart also member⟩
  by_contra differs
  exact apart.forall listed alsoListed differs member alsoMember

theorem exists_chain_of_lt (labelled : Labelled method) (inside : here < blocks.length) :
    ∃ pair ∈ method.blocks.zip fresh, ∃ index : Nat,
      (pair.1.label :: pair.2)[index]? = some here := by
  have listed {place : Nat} (below : place < method.blocks.length) :
      (method.blocks[place], fresh[place]) ∈ method.blocks.zip fresh := by
    rw [← List.getElem_zip (h := by simp; omega)]
    exact List.getElem_mem _
  have member : here ∈ List.range method.blocks.length ++ fresh.flatten :=
    known ▸ List.mem_range.mpr inside
  rcases List.mem_append.mp member with old | split
  · have below := List.mem_range.mp old
    refine ⟨_, listed below, 0, ?_⟩
    rw [List.getElem?_cons_zero, labelled here _ (List.getElem?_eq_getElem below)]
  · obtain ⟨labels, among, member⟩ := List.mem_flatten.mp split
    obtain ⟨place, below, rfl⟩ := List.mem_iff_getElem.mp among
    obtain ⟨index, found⟩ := List.mem_iff_getElem?.mp member
    exact ⟨_, listed (paired ▸ below), index + 1, found⟩

/-- From outside of a chain, control reaches its first block only, and there each block is reached
from the one before. -/
theorem reached_from_chain (labelled : Labelled method)
    (inside : ∀ block ∈ method.blocks, ∀ target ∈ block.targets, target < method.blocks.length)
    (chains : ∀ pair ∈ method.blocks.zip fresh, ∃ parts,
      Chain blocks pair.1.handlers pair.1.successors pair.1.label pair.2 parts)
    {pair : Block × List Label} (listed : pair ∈ method.blocks.zip fresh) {index : Nat}
    (split : pair.2[index]? = some next) {part : Block} (present : part ∈ blocks)
    (leads : next ∈ part.targets) : (pair.1.label :: pair.2)[index]? = some part.label := by
  have above : method.blocks.length ≤ next := (nodup_fresh known).2 next
    (List.mem_flatten.mpr ⟨pair.2, (List.of_mem_zip listed).2, List.mem_of_getElem? split⟩)
  obtain ⟨place, found⟩ := List.mem_iff_getElem?.mp present
  obtain ⟨other, otherListed, position, here⟩ :=
    exists_chain_of_lt known paired labelled (List.getElem?_eq_some_iff.mp found).1
  obtain ⟨parts, chain⟩ := chains other otherListed
  obtain ⟨instructions, targets, there, goes⟩ := chain.exists_block here
  cases Option.some.inj (found.symm.trans there)
  have old := inside other.1 (List.of_mem_zip otherListed).1 next
  have follows : other.2[position]? = some next := by
    rcases List.mem_append.mp leads with goesOn | guards
    · rcases goes with rfl | ⟨after, known, rfl⟩
      · exact absurd (old (List.mem_append_left _ goesOn)) (Nat.not_lt.mpr above)
      · rwa [List.mem_singleton.mp goesOn]
    · exact absurd (old (List.mem_append_right _ guards)) (Nat.not_lt.mpr above)
  obtain rfl := eq_of_mem_fresh known paired listed otherListed (List.mem_of_getElem? split)
    (List.mem_of_getElem? follows)
  have distinct := (List.nodup_flatten.mp (nodup_fresh known).1).1 pair.2
    (List.of_mem_zip listed).2
  have same : index = position :=
    (List.getElem?_inj (List.getElem?_eq_some_iff.mp split).1 distinct).mp
      (split.trans follows.symm)
  rw [same, here]

end Fresh

end Outlining.Rewriting
