import Outlining.Holder
import Outlining.Proofs.Template.Signature

/-! The check deals the slots out to the operations and remembers whether a value was produced. Said
of places in the list of slots instead, it comes to this: each slot belongs to one operation, and
one that holds the temporary to an operation behind another one that has a result. -/
namespace Outlining.Template

open Outlining.Bytecode

variable {template : Template} {operations before earlier : List Operation}
  {operation other : Operation} {slots own : List Slot} {slot : Slot} {place arguments : Nat}
  {written : Bool} {wiring : List (Operation × List Slot)} {flaw : Flaw}

/-- The place of the first slot behind those of the operations. -/
def offset (operations : List Operation) : Nat := (operations.map (·.arity)).sum

/-- Whether the slot at `place` belongs to `operation`, which stands behind `before`. -/
structure Owns (operations : List Operation) (place : Nat) (before : List Operation)
    (operation : Operation) : Prop where
  split : ∃ after, operations = before ++ operation :: after
  first : offset before ≤ place
  last : place < offset before + operation.arity

/-- A template whose slots can all be given a value, and whose arguments are all read. -/
structure WellWired (template : Template) : Prop where
  covers : template.slots.length = offset template.operations
  solid : ∀ type ∈ template.argumentTypes, type ≠ .void
  known : ∀ index, .argument index ∈ template.slots → index < template.argumentTypes.length
  read : ∀ index < template.argumentTypes.length, .argument index ∈ template.slots
  written : ∀ place, template.slots[place]? = some .temporary →
    ∃ before operation, Owns template.operations place before operation ∧
      ∃ earlier ∈ before, earlier.hasResult = true
  returns : template.returnType = .void ∨
    ∃ operation ∈ template.operations, operation.hasResult = true

/-- What a flaw says of a template. -/
def Flaw.Tells (template : Template) : Flaw → Prop
  | .slotCount operands slots =>
    operands = offset template.operations ∧ slots = template.slots.length ∧ operands ≠ slots
  | .voidArgument type => type = .void ∧ type ∈ template.argumentTypes
  | .unwrittenTemporary operation => ∃ place before,
    template.slots[place]? = some .temporary ∧ Owns template.operations place before operation ∧
      ∀ earlier ∈ before, earlier.hasResult = false
  | .missingArgument index =>
    .argument index ∈ template.slots ∧ template.argumentTypes.length ≤ index
  | .unreadArgument index =>
    index < template.argumentTypes.length ∧ .argument index ∉ template.slots
  | .noResult => template.returnType ≠ .void ∧
    ∀ operation ∈ template.operations, operation.hasResult = false
  | .untypedArgument | .unresolvedOperand | .operandCount | .nothingToReturn => False

theorem arity_eq_offset (template : Template) : template.arity = offset template.operations :=
  template.arity_eq_sum

theorem offset_append (first second : List Operation) :
    offset (first ++ second) = offset first + offset second := by
  simp [offset]

theorem isVoid_iff {type : Descriptor} : type.isVoid = true ↔ type = .void := by
  obtain ⟨text⟩ := type
  simp [Descriptor.isVoid, Descriptor.void]

theorem isVoid_eq_false_iff {type : Descriptor} : type.isVoid = false ↔ type ≠ .void := by
  rw [ne_eq, ← isVoid_iff, Bool.not_eq_true]

/-- The first operations take their slots, and the others those behind them. -/
theorem deal_append (first second : List Operation) (slots : List Slot) :
    deal (first ++ second) slots = deal first slots ++ deal second (slots.drop (offset first)) := by
  induction first generalizing slots with
  | nil => simp [deal, offset]
  | cons operation first inductionHypothesis =>
    have further : offset (operation :: first) = operation.arity + offset first := by simp [offset]
    rw [List.cons_append, deal, deal, inductionHypothesis, List.drop_drop, further,
      List.cons_append]

theorem owns_of_deal {after : List (Operation × List Slot)}
    (split : deal operations slots = wiring ++ (operation, own) :: after) (member : slot ∈ own) :
    ∃ place, slots[place]? = some slot ∧
      Owns operations place (wiring.map Prod.fst) operation := by
  have whole : operations = wiring.map Prod.fst ++ operation :: after.map Prod.fst := by
    rw [← map_fst_deal operations slots, split, List.map_append, List.map_cons]
  rw [whole, deal_append, deal] at split
  have count := congrArg List.length (map_fst_deal (wiring.map Prod.fst) slots)
  rw [List.length_map, List.length_map] at count
  obtain ⟨_, dealt⟩ := List.append_inj split count
  obtain rfl := (Prod.mk.inj (List.cons.inj dealt).1).2
  obtain ⟨place, found⟩ := List.mem_iff_getElem?.mp member
  rw [List.getElem?_take] at found
  split at found
  · rename_i inside
    rw [List.getElem?_drop] at found
    exact ⟨_, found, ⟨_, whole⟩, Nat.le_add_right _ _, Nat.add_lt_add_left inside _⟩
  · cases found

theorem Owns.exists_deal (owns : Owns operations place before operation)
    (found : slots[place]? = some slot) :
    ∃ wiring own after, deal operations slots = wiring ++ (operation, own) :: after ∧
      wiring.map Prod.fst = before ∧ slot ∈ own := by
  obtain ⟨⟨after, rfl⟩, first, last⟩ := owns
  refine ⟨deal before slots, _, _, by rw [deal_append, deal], map_fst_deal before slots, ?_⟩
  refine List.mem_iff_getElem?.mpr ⟨place - offset before, ?_⟩
  rw [List.getElem?_take_of_lt (by omega), List.getElem?_drop, Nat.add_sub_cancel' first, found]

theorem offset_cons (operation : Operation) (operations : List Operation) :
    offset (operation :: operations) = operation.arity + offset operations := by
  simp [offset]

theorem Owns.unique (owns : Owns operations place before operation)
    (owned : Owns operations place earlier other) : before = earlier ∧ operation = other := by
  have ordered {before earlier : List Operation} {operation other : Operation}
      (owns : Owns operations place before operation) (owned : Owns operations place earlier other)
      {more : List Operation} (behind : earlier = before ++ more) :
      before = earlier ∧ operation = other := by
    obtain ⟨after, whole⟩ := owns.split
    obtain ⟨rest, same⟩ := owned.split
    rw [whole, behind, List.append_assoc, List.append_cancel_left_eq] at same
    cases more with
    | nil => exact ⟨by simp [behind], (List.cons.inj same).1⟩
    | cons first more =>
      -- The slots of `operation` end before those of `other` begin.
      obtain ⟨rfl, _⟩ := List.cons.inj same
      have late := owned.first
      rw [behind, offset_append, offset_cons] at late
      have early := owns.last
      omega
  obtain ⟨after, whole⟩ := owns.split
  obtain ⟨rest, same⟩ := owned.split
  rcases List.append_eq_append_iff.mp (whole.symm.trans same) with ⟨more, behind, _⟩ |
    ⟨more, behind, _⟩
  · exact ordered owns owned behind
  · obtain ⟨rfl, rfl⟩ := ordered owned owns behind
    exact ⟨rfl, rfl⟩

theorem exists_owner (inside : place < offset operations) :
    ∃ before operation, Owns operations place before operation := by
  induction operations generalizing place with
  | nil => cases inside
  | cons operation operations inductionHypothesis =>
    by_cases here : place < operation.arity
    · exact ⟨[], operation, ⟨operations, rfl⟩, Nat.zero_le _, by simpa [offset] using here⟩
    · rw [offset_cons] at inside
      have further : place - operation.arity < offset operations := by omega
      obtain ⟨before, other, ⟨after, split⟩, first, last⟩ := inductionHypothesis further
      refine ⟨operation :: before, other, ⟨after, by rw [split, List.cons_append]⟩, ?_, ?_⟩
      · rw [offset_cons]
        omega
      · rw [offset_cons]
        omega

/-- The slots can be given values operation by operation if and only if each can be where it
stands. -/
theorem fed_deal_iff (covers : slots.length = offset operations) :
    Fed arguments written (deal operations slots) ↔
      ∀ place slot, slots[place]? = some slot → ∃ before operation,
        Owns operations place before operation ∧
          slot.IsFed arguments (written || before.any (·.hasResult)) := by
  constructor
  · intro fed place slot found
    have inside := (List.getElem?_eq_some_iff.mp found).1
    obtain ⟨before, operation, owns⟩ := exists_owner (covers ▸ inside)
    obtain ⟨wiring, own, after, split, rfl, member⟩ := owns.exists_deal found
    refine ⟨_, operation, owns, ?_⟩
    rw [List.any_map]
    exact fed wiring operation own after split slot member
  · intro each wiring operation own after split slot member
    obtain ⟨place, found, owns⟩ := owns_of_deal split member
    obtain ⟨before, other, owned, isFed⟩ := each place slot found
    obtain ⟨rfl, _⟩ := owns.unique owned
    rwa [List.any_map] at isFed

/-- A template can be wired up if and only if it is well wired. -/
theorem wirable_iff : Wirable template ↔ WellWired template := by
  constructor
  · intro wirable
    have covers : template.slots.length = offset template.operations :=
      wirable.covers.symm.trans template.arity_eq_offset
    have fed := (fed_deal_iff covers).mp wirable.fed
    refine ⟨covers, ?solid, ?known, wirable.reads, ?written, ?returns⟩
    case solid => exact fun type passed => isVoid_eq_false_iff.mp (wirable.passes type passed)
    case known =>
      intro index member
      obtain ⟨place, found⟩ := List.mem_iff_getElem?.mp member
      obtain ⟨_, _, _, isFed⟩ := fed place _ found
      exact isFed
    case written =>
      intro place found
      obtain ⟨before, operation, owns, isFed⟩ := fed place _ found
      exact ⟨before, operation, owns, by simpa [Slot.IsFed] using isFed⟩
    case returns => exact or_iff_not_imp_left.mpr (wirable.returns ∘ isVoid_eq_false_iff.mpr)
  · intro wired
    refine ⟨template.arity_eq_offset.trans wired.covers.symm, ?passes, ?fed, wired.read, ?returns⟩
    case passes => exact fun type passed => isVoid_eq_false_iff.mpr (wired.solid type passed)
    case fed =>
      refine (fed_deal_iff wired.covers).mpr fun place slot found => ?_
      cases slot with
      | temporary =>
        obtain ⟨before, operation, owns, earlier⟩ := wired.written place found
        exact ⟨before, operation, owns, by simpa [Slot.IsFed] using earlier⟩
      | argument index =>
        have inside := (List.getElem?_eq_some_iff.mp found).1
        obtain ⟨before, operation, owns⟩ := exists_owner (wired.covers ▸ inside)
        exact ⟨before, operation, owns, wired.known index (List.mem_of_getElem? found)⟩
    case returns =>
      exact fun solid => wired.returns.resolve_left (isVoid_eq_false_iff.mp solid)

/-- A flaw in the wiring is that of a slot when its operation is reached. -/
theorem exists_of_wiringFlaw? (found : wiringFlaw? arguments written wiring = some flaw) :
    ∃ before operation own after, wiring = before ++ (operation, own) :: after ∧
      ∃ slot ∈ own, slotFlaw? arguments (written || before.any (·.1.hasResult)) operation slot =
        some flaw := by
  induction wiring generalizing written with
  | nil => cases found
  | cons entry wiring inductionHypothesis =>
    obtain ⟨operation, own⟩ := entry
    rw [wiringFlaw?] at found
    split at found
    · rename_i first here
      cases found
      obtain ⟨slot, member, flawed⟩ := List.exists_of_findSome?_eq_some here
      exact ⟨[], operation, own, wiring, rfl, slot, member, by simpa using flawed⟩
    · obtain ⟨before, other, others, after, split, slot, member, flawed⟩ :=
        inductionHypothesis found
      refine ⟨(operation, own) :: before, other, others, after, by rw [split]; rfl, slot, member, ?_⟩
      simpa [Bool.or_assoc] using flawed

theorem tells_of_wiringFlaw?
    (found : wiringFlaw? template.argumentTypes.length false template.wiring = some flaw) :
    flaw.Tells template := by
  obtain ⟨wiring, operation, own, after, split, slot, member, flawed⟩ :=
    exists_of_wiringFlaw? found
  obtain ⟨place, listed, owns⟩ := owns_of_deal split member
  cases slot with
  | temporary =>
    simp only [slotFlaw?, Bool.false_or] at flawed
    split at flawed
    · cases flawed
    · rename_i nothing
      cases flawed
      refine ⟨place, _, listed, owns, fun earlier among => ?_⟩
      obtain ⟨entry, member, rfl⟩ := List.mem_map.mp among
      exact Bool.eq_false_iff.mpr fun some => nothing (List.any_eq_true.mpr ⟨entry, member, some⟩)
  | argument index =>
    simp only [slotFlaw?] at flawed
    split at flawed
    · cases flawed
    · rename_i outside
      cases flawed
      exact ⟨List.mem_of_getElem? listed, Nat.not_lt.mp outside⟩

theorem tells_of_flaw? (found : template.flaw? = some flaw) : flaw.Tells template := by
  unfold flaw? at found
  split at found
  · rename_i differs
    cases found
    exact ⟨template.arity_eq_offset, rfl, differs⟩
  split at found
  · rename_i type void
    cases found
    exact ⟨isVoid_iff.mp (List.find?_some void), List.mem_of_find?_eq_some void⟩
  split at found
  · rename_i wrong
    cases found
    exact tells_of_wiringFlaw? wrong
  split at found
  · rename_i index unread
    cases found
    refine ⟨List.mem_range.mp (List.mem_of_find?_eq_some unread), ?_⟩
    simpa using List.find?_some unread
  split at found
  · rename_i silent
    cases found
    rw [Bool.and_eq_true, Bool.not_eq_true', Bool.not_eq_true', isVoid_eq_false_iff] at silent
    exact ⟨silent.1, by simpa using silent.2⟩
  · cases found

/-- The signature of a template is its types, exactly if it is well wired; otherwise outlining stops
with a flaw that tells what is wrong with it. -/
theorem signature_exact (template : Template) :
    (∀ prototype, template.signature = .ok prototype ↔
      WellWired template ∧ prototype = ⟨template.returnType, template.argumentTypes⟩) ∧
    (¬ WellWired template → ∃ flaw, template.signature = .error flaw ∧ flaw.Tells template ∧
      ∀ type stem first number index, Holder.outline type stem first number index template =
        .error (.signatureMismatch template flaw)) := by
  refine ⟨fun prototype => by rw [signature_eq_ok_iff, wirable_iff], fun faulty => ?_⟩
  rw [← wirable_iff, ← flaw?_eq_none_iff] at faulty
  obtain ⟨flaw, found⟩ := Option.ne_none_iff_exists'.mp faulty
  have refused : template.signature = .error flaw := by rw [signature, found]
  refine ⟨flaw, refused, tells_of_flaw? found, fun type stem first number index => ?_⟩
  rw [Holder.outline, refused]

/-- A square that is scaled. -/
def scaledSquare : Template :=
  ⟨[.arithmetic .mul .int, .arithmetic .mul .int], [.int, .int],
    [.argument 0, .argument 0, .temporary, .argument 1], .int⟩

/-- A sum that reads the temporary before any value was produced. -/
def readsAhead : Template := ⟨[.arithmetic .add .int], [.int], [.temporary, .argument 0], .int⟩

theorem signature_of_readsAhead :
    (scaledSquare.signature = .ok ⟨.int, [.int, .int]⟩ ∧ WellWired scaledSquare) ∧
    ¬ WellWired readsAhead ∧ ∃ flaw, readsAhead.signature = .error flaw ∧
      flaw.Tells readsAhead ∧ ∀ type stem first number index,
        Holder.outline type stem first number index readsAhead =
          .error (.signatureMismatch readsAhead flaw) := by
  have faulty : ¬ WellWired readsAhead := by
    intro wired
    cases ((signature_exact readsAhead).1 _).mpr ⟨wired, rfl⟩
  exact ⟨⟨rfl, (((signature_exact scaledSquare).1 _).mp rfl).1⟩, faulty,
    (signature_exact readsAhead).2 faulty⟩

end Outlining.Template
