import Mathlib.Algebra.Order.Ring.Nat
import Mathlib.Data.List.Basic
import Outlining.CommandLine.Arguments
import Outlining.Proofs.Text.Numeral

/-! A command line is a sequence of items, each written as one argument or as an option with its
value. It is accepted exactly if it splits into items with at most one input among them, and asks
then for what the items say. -/
namespace Outlining.CommandLine

/-- What a part of a command line says. -/
inductive Item where
  | verbosity (amount : Nat)
  | output (path : String)
  | config (path : String)
  | number (option : NumberOption) (value : Nat)
  | statistics
  | quiet
  | input (path : String)
deriving DecidableEq

def NumberOption.names : NumberOption → List String
  | .threads => ["-t", "--threads"]
  | .threshold => ["--threshold"]
  | .minSize => ["--min-size"]

namespace Item

/-- How an item is written. -/
inductive Written : Item → List String → Prop where
  | verbose : Written (.verbosity 1) ["--verbose"]
  | letters (more : Nat) :
      Written (.verbosity (more + 1)) [String.ofList ('-' :: List.replicate (more + 1) 'v')]
  | output {name path : String} (named : name ∈ ["-o", "--output"]) :
      Written (.output path) [name, path]
  | config {name path : String} (named : name ∈ ["-c", "--config"]) :
      Written (.config path) [name, path]
  | number {option : NumberOption} {name text : String} {value : Nat}
      (named : name ∈ option.names) (reads : Text.IsWord text value) :
      Written (.number option value) [name, text]
  | statistics : Written .statistics ["--stats"]
  | quiet {name : String} (named : name ∈ ["-q", "--quiet"]) : Written .quiet [name]
  | input {path : String} (plain : path = "-" ∨ path.toList.head? ≠ some '-') :
      Written (.input path) [path]

def amount : Item → Nat
  | .verbosity amount => amount
  | _ => 0

def output? : Item → Option String
  | .output path => some path
  | _ => none

def config? : Item → Option String
  | .config path => some path
  | _ => none

def number? (option : NumberOption) : Item → Option Nat
  | .number other value => if other = option then some value else none
  | _ => none

def input? : Item → Option String
  | .input path => some path
  | _ => none

end Item

/-- The splitting of a command line into items, from left to right. -/
inductive Splits : List String → List Item → Prop where
  | done : Splits [] []
  | item {item : Item} {words arguments : List String} {items : List Item}
      (written : item.Written words) (rest : Splits arguments items) :
      Splits (words ++ arguments) (item :: items)

def inputs (items : List Item) : List String := items.filterMap (·.input?)

/-- What items ask for together: of a repeated option the last value counts. -/
structure Arguments.SumsUp (arguments : Arguments) (items : List Item) : Prop where
  input : arguments.input = (inputs items).getLast?
  output : arguments.output = (items.filterMap (·.output?)).getLast?
  config : arguments.config = (items.filterMap (·.config?)).getLast?
  threads : arguments.threads = (items.filterMap (·.number? .threads)).getLast?
  threshold : arguments.threshold = (items.filterMap (·.number? .threshold)).getLast?
  minSize : arguments.minSize = (items.filterMap (·.number? .minSize)).getLast?
  statistics : arguments.showStatistics = true ↔ .statistics ∈ items
  verbosity : arguments.verbosity = min 255 (items.map (·.amount)).sum
  quiet : arguments.quiet = true ↔ .quiet ∈ items

variable {arguments words rest : List String} {argument : String} {items before : List Item}
  {item : Item} {known next : Arguments}

theorem Arguments.sumsUp_none : Arguments.none.SumsUp [] := by
  constructor <;> simp [Arguments.none, inputs]

theorem Item.written_verbosity_iff {count : Nat} : Written (.verbosity count) [argument] ↔
    (argument = "--verbose" ∧ count = 1) ∨
      (0 < count ∧ argument.toList = '-' :: List.replicate count 'v') := by
  constructor
  · intro written
    cases written with
    | verbose => exact .inl ⟨rfl, rfl⟩
    | letters more => exact .inr ⟨Nat.succ_pos more, by simp⟩
  · rintro (⟨rfl, rfl⟩ | ⟨some, spelled⟩)
    · exact .verbose
    · obtain ⟨more, rfl⟩ := Nat.exists_eq_add_one_of_ne_zero (Nat.ne_of_gt some)
      rw [← String.ofList_toList (s := argument), spelled]
      exact .letters more

theorem verbosityOf?_eq_some_iff {amount : Nat} : verbosityOf? argument = some amount ↔
    ∃ count, Item.Written (.verbosity count) [argument] ∧ amount = min verbosityLimit count := by
  simp only [Item.written_verbosity_iff]
  unfold verbosityOf?
  by_cases long : argument = "--verbose"
  · subst long
    have spelled : "--verbose".toList = ['-', '-', 'v', 'e', 'r', 'b', 'o', 's', 'e'] := by decide
    simp only [if_true, spelled, Option.some.injEq]
    constructor
    · rintro rfl
      exact ⟨1, .inl ⟨trivial, rfl⟩, rfl⟩
    · rintro ⟨count, ⟨_, rfl⟩ | ⟨some, same⟩, rfl⟩
      · rfl
      · obtain ⟨more, rfl⟩ := Nat.exists_eq_add_one_of_ne_zero (Nat.ne_of_gt some)
        simp [List.replicate_succ] at same
  · simp only [long, if_false, false_and, false_or]
    split
    · rename_i letters spelled
      simp only [spelled, List.cons.injEq, true_and]
      by_cases valid : (!letters.isEmpty && letters.all (· == 'v')) = true
      · simp only [valid, if_true, Option.some.injEq]
        simp only [Bool.and_eq_true, Bool.not_eq_true', List.isEmpty_eq_false_iff, List.all_eq_true,
          beq_iff_eq] at valid
        have same := List.eq_replicate_of_mem valid.2
        constructor
        · rintro rfl
          exact ⟨letters.length, ⟨List.length_pos_iff.mpr valid.1, same⟩, rfl⟩
        · rintro ⟨count, ⟨_, rfl⟩, rfl⟩
          rw [List.length_replicate]
      · simp only [valid]
        refine ⟨nofun, fun ⟨count, ⟨positive, same⟩, _⟩ => absurd ?_ valid⟩
        simp [same, Nat.ne_of_gt positive]
    · rename_i plain
      exact ⟨nofun, fun ⟨count, ⟨_, spelled⟩, _⟩ => absurd spelled (plain _)⟩

/-- What it takes for an argument to be of a kind. -/
def Kind.Fits (argument : String) : Kind → Prop
  | .verbosity amount => ∃ count, Item.Written (.verbosity count) [argument] ∧
      amount = min verbosityLimit count
  | .help => argument ∈ ["-h", "--help"]
  | .version => argument ∈ ["-V", "--version"]
  | .output => argument ∈ ["-o", "--output"]
  | .config => argument ∈ ["-c", "--config"]
  | .number option => argument ∈ option.names
  | .statistics => argument ∈ ["--stats"]
  | .quiet => argument ∈ ["-q", "--quiet"]
  | .input => argument = "-" ∨ argument.toList.head? ≠ some '-'
  | .unknown => argument.toList.head? = some '-' ∧ argument ≠ "-"

theorem Kind.fits_ite {condition : Prop} [Decidable condition] {left right : Kind}
    (holds : condition → left.Fits argument) (fails : ¬ condition → right.Fits argument) :
    (if condition then left else right).Fits argument := by
  by_cases decided : condition
  · rw [if_pos decided]
    exact holds decided
  · rw [if_neg decided]
    exact fails decided

theorem Kind.fits_of (argument : String) : (Kind.of argument).Fits argument := by
  unfold Kind.of
  cases level : verbosityOf? argument with
  | some amount => exact verbosityOf?_eq_some_iff.mp level
  | none =>
    refine fits_ite List.mem_pair.mpr fun _ => ?_
    refine fits_ite List.mem_pair.mpr fun _ => ?_
    refine fits_ite List.mem_pair.mpr fun _ => ?_
    refine fits_ite List.mem_pair.mpr fun _ => ?_
    refine fits_ite List.mem_pair.mpr fun _ => ?_
    refine fits_ite List.mem_singleton.mpr fun _ => ?_
    refine fits_ite List.mem_singleton.mpr fun _ => ?_
    refine fits_ite List.mem_singleton.mpr fun _ => ?_
    refine fits_ite List.mem_pair.mpr fun _ => ?_
    refine fits_ite id fun known => ?_
    by_cases alone : argument = "-"
    · exact .inl alone
    · exact .inr fun dashed => known ⟨dashed, alone⟩

theorem Kind.of_eq {kind : Kind} (fits : kind.Fits argument) (known : kind ≠ .unknown) :
    Kind.of argument = kind := by
  cases kind with
  | verbosity amount =>
    unfold Kind.of
    rw [verbosityOf?_eq_some_iff.mpr fits]
  | help | version | output | config | quiet =>
    rcases List.mem_pair.mp fits with rfl | rfl <;> decide
  | statistics =>
    obtain rfl := List.mem_singleton.mp fits
    decide
  | number option =>
    cases option with
    | threads =>
      rcases List.mem_pair.mp fits with rfl | rfl <;> decide
    | threshold | minSize =>
      obtain rfl := List.mem_singleton.mp fits
      decide
  | input =>
    rcases fits with rfl | plain
    · decide
    have differs (name : String) (dashed : name.toList.head? = some '-') : argument ≠ name :=
      fun same => plain (same ▸ dashed)
    unfold Kind.of
    cases level : verbosityOf? argument with
    | some amount =>
      obtain ⟨count, written, _⟩ := verbosityOf?_eq_some_iff.mp level
      rcases Item.written_verbosity_iff.mp written with ⟨rfl, _⟩ | ⟨_, spelled⟩
      · exact absurd (by decide) plain
      · exact absurd (by rw [spelled]; rfl) plain
    | none =>
      simp only [differs "-h" (by decide), differs "--help" (by decide), differs "-V" (by decide),
        differs "--version" (by decide), differs "-o" (by decide), differs "--output" (by decide),
        differs "-c" (by decide), differs "--config" (by decide), differs "-t" (by decide),
        differs "--threads" (by decide), differs "--threshold" (by decide),
        differs "--min-size" (by decide), differs "--stats" (by decide), differs "-q" (by decide),
        differs "--quiet" (by decide), plain, or_false, if_false, false_and]
  | unknown => exact absurd rfl known

def Arguments.adding (arguments : Arguments) : Item → Arguments
  | .verbosity amount => arguments.raise amount
  | .output path => { arguments with output := some path }
  | .config path => { arguments with config := some path }
  | .number option value => arguments.setNumber option value
  | .statistics => { arguments with showStatistics := true }
  | .quiet => { arguments with quiet := true }
  | .input path => { arguments with input := some path }

theorem getLast?_filterMap {α : Type} (value? : Item → Option α) (before : List Item)
    (item : Item) : ((before ++ [item]).filterMap value?).getLast? =
      (value? item).or (before.filterMap value?).getLast? := by
  cases said : value? item <;> simp [said]

theorem Arguments.SumsUp.input_eq_none {path : String} (sums : known.SumsUp before)
    (single : (inputs (before ++ [.input path])).length ≤ 1) : known.input = .none := by
  rw [inputs, List.filterMap_append, List.length_append] at single
  have none : inputs before = [] :=
    List.length_eq_zero_iff.mp (Nat.le_zero.mp (Nat.le_of_succ_le_succ single))
  rw [sums.input, none, List.getLast?_nil]

section Adding

variable (known : Arguments) (item : Item)

theorem Arguments.input_adding : (known.adding item).input = item.input?.or known.input := by
  rcases item with _ | _ | _ | ⟨_ | _ | _, _⟩ | _ | _ | _ <;> rfl

theorem Arguments.output_adding : (known.adding item).output = item.output?.or known.output := by
  rcases item with _ | _ | _ | ⟨_ | _ | _, _⟩ | _ | _ | _ <;> rfl

theorem Arguments.config_adding : (known.adding item).config = item.config?.or known.config := by
  rcases item with _ | _ | _ | ⟨_ | _ | _, _⟩ | _ | _ | _ <;> rfl

theorem Arguments.threads_adding :
    (known.adding item).threads = (item.number? .threads).or known.threads := by
  rcases item with _ | _ | _ | ⟨_ | _ | _, _⟩ | _ | _ | _ <;> rfl

theorem Arguments.threshold_adding :
    (known.adding item).threshold = (item.number? .threshold).or known.threshold := by
  rcases item with _ | _ | _ | ⟨_ | _ | _, _⟩ | _ | _ | _ <;> rfl

theorem Arguments.minSize_adding :
    (known.adding item).minSize = (item.number? .minSize).or known.minSize := by
  rcases item with _ | _ | _ | ⟨_ | _ | _, _⟩ | _ | _ | _ <;> rfl

theorem Arguments.statistics_adding : (known.adding item).showStatistics = true ↔
    known.showStatistics = true ∨ .statistics = item := by
  rcases item with _ | _ | _ | ⟨_ | _ | _, _⟩ | _ | _ | _ <;>
    simp [adding, raise, setNumber]

theorem Arguments.quiet_adding : (known.adding item).quiet = true ↔
    known.quiet = true ∨ .quiet = item := by
  rcases item with _ | _ | _ | ⟨_ | _ | _, _⟩ | _ | _ | _ <;>
    simp [adding, raise, setNumber]

theorem Arguments.verbosity_adding (limited : known.verbosity ≤ 255) :
    (known.adding item).verbosity = min 255 (known.verbosity + item.amount) := by
  rcases item with _ | _ | _ | ⟨_ | _ | _, _⟩ | _ | _ | _ <;>
    simp [adding, raise, setNumber, Item.amount, verbosityLimit, limited]

end Adding

theorem Arguments.SumsUp.adding (sums : known.SumsUp before) (item : Item) :
    (known.adding item).SumsUp (before ++ [item]) where
  input := by rw [inputs, getLast?_filterMap, input_adding, sums.input, inputs]
  output := by rw [getLast?_filterMap, output_adding, sums.output]
  config := by rw [getLast?_filterMap, config_adding, sums.config]
  threads := by rw [getLast?_filterMap, threads_adding, sums.threads]
  threshold := by rw [getLast?_filterMap, threshold_adding, sums.threshold]
  minSize := by rw [getLast?_filterMap, minSize_adding, sums.minSize]
  statistics := by
    rw [statistics_adding, sums.statistics, List.mem_append, List.mem_singleton]
  verbosity := by
    rw [verbosity_adding _ _ (sums.verbosity ▸ Nat.min_le_left ..), sums.verbosity, List.map_append,
      List.sum_append, List.map_singleton, List.sum_singleton]
    omega
  quiet := by rw [quiet_adding, sums.quiet, List.mem_append, List.mem_singleton]

theorem Arguments.raise_min (amount : Nat) :
    known.raise (min verbosityLimit amount) = known.raise amount := by
  have same : min verbosityLimit (known.verbosity + min verbosityLimit amount) =
      min verbosityLimit (known.verbosity + amount) := by omega
  rw [raise, raise, same]

theorem Item.Written.read (written : item.Written words)
    (free : ∀ path, item = .input path → known.input = none) (rest : List String) :
    readArguments known (words ++ rest) = readArguments (known.adding item) rest := by
  have of_eq {kind : Kind} {argument : String} := @Kind.of_eq argument kind
  cases written with
  | verbose =>
    have kind := @of_eq (.verbosity 1) "--verbose" ⟨1, .verbose, rfl⟩ nofun
    rw [List.singleton_append, readArguments.eq_def]
    simp only [kind]
    rfl
  | letters more =>
    have kind := @of_eq (.verbosity _) _ ⟨more + 1, .letters more, rfl⟩ nofun
    rw [List.singleton_append, readArguments.eq_def]
    simp only [kind, Arguments.raise_min]
    rfl
  | @output name path named =>
    have kind := @of_eq .output name named nofun
    rw [List.cons_append, readArguments.eq_def]
    simp only [kind]
    rfl
  | @config name path named =>
    have kind := @of_eq .config name named nofun
    rw [List.cons_append, readArguments.eq_def]
    simp only [kind]
    rfl
  | @number option name text value named reads =>
    have kind := @of_eq (.number option) name named nofun
    rw [List.cons_append, readArguments.eq_def]
    simp only [kind, List.singleton_append, Text.word?_eq_some_iff.mpr reads]
    rfl
  | statistics =>
    have kind := @of_eq .statistics "--stats" (List.mem_singleton_self _) nofun
    rw [List.singleton_append, readArguments.eq_def]
    simp only [kind]
    rfl
  | @quiet name named =>
    have kind := @of_eq .quiet name named nofun
    rw [List.singleton_append, readArguments.eq_def]
    simp only [kind]
    rfl
  | @input path plain =>
    have kind := @of_eq .input path plain nofun
    rw [List.singleton_append, readArguments.eq_def]
    simp only [kind, free path rfl]
    rfl

theorem Item.Written.read_again {path : String} (written : Written (.input path) words)
    (taken : known.input.isSome = true) (rest : List String) :
    readArguments known (words ++ rest) = .error .severalInputs := by
  obtain ⟨other, present⟩ := Option.isSome_iff_exists.mp taken
  cases written with
  | input plain =>
    have kind := Kind.of_eq (show Kind.Fits path .input from plain) nofun
    rw [List.singleton_append, readArguments.eq_def]
    simp only [kind, present]

theorem Item.Written.ne_nil (written : item.Written words) : words ≠ [] := by
  cases written <;> nofun

theorem exists_input (single : (inputs before).length ≤ 1)
    (several : ¬ (inputs (before ++ [item])).length ≤ 1) :
    ∃ path, item = .input path ∧ inputs before ≠ [] := by
  rw [inputs, List.filterMap_append] at several
  cases item with
  | input path =>
    refine ⟨path, rfl, fun none => several ?_⟩
    rw [List.length_append, ← inputs, none]
    exact Nat.le_refl 1
  | _ =>
    rw [List.filterMap_cons_none (by rfl), List.filterMap_nil, List.append_nil] at several
    exact absurd single several

/-- Reading items adds all of them to what is known, unless a second input is among them. -/
theorem Splits.read (splits : Splits words items) (sums : known.SumsUp before)
    (single : (inputs before).length ≤ 1) :
    ((inputs (before ++ items)).length ≤ 1 ∧ ∃ next : Arguments, next.SumsUp (before ++ items) ∧
      ∀ rest, readArguments known (words ++ rest) = readArguments next rest) ∨
    (1 < (inputs (before ++ items)).length ∧
      ∀ rest, readArguments known (words ++ rest) = .error .severalInputs) := by
  induction splits generalizing known before with
  | done => exact .inl ⟨by simpa using single, known, by simpa using sums, fun rest => rfl⟩
  | @item item words others items written splits inductionHypothesis =>
    rw [List.append_cons]
    by_cases room : (inputs (before ++ [item])).length ≤ 1
    · have free : ∀ path, item = .input path → known.input = none := by
        rintro path rfl
        exact sums.input_eq_none room
      simpa only [List.append_assoc words, written.read free] using
        inductionHypothesis (sums.adding item) room
    · obtain ⟨path, rfl, taken⟩ := exists_input single room
      have present : known.input.isSome = true := by
        rw [sums.input, List.getLast?_isSome]
        exact taken
      refine .inr ⟨Nat.lt_of_lt_of_le (Nat.not_le.mp room) ?_, fun rest => ?_⟩
      · exact ((List.sublist_append_left _ items).filterMap _).length_le
      · rw [List.append_assoc, written.read_again present]

/-- The options that ask for something in place of a run. -/
def Request.names : Request → List String
  | .help => ["-h", "--help"]
  | .version => ["-V", "--version"]
  | .run _ => []

theorem readArguments_of_names {asked : Request} {name : String} (named : name ∈ asked.names)
    (rest : List String) : readArguments known (name :: rest) = .ok asked := by
  cases asked with
  | help =>
    have kind := Kind.of_eq (show Kind.Fits name .help from named) nofun
    rw [readArguments.eq_def]
    simp only [kind]
  | version =>
    have kind := Kind.of_eq (show Kind.Fits name .version from named) nofun
    rw [readArguments.eq_def]
    simp only [kind]
  | run arguments => cases named

/-- Why no item begins what is left of a command line. -/
inductive Ended : List String → Prop where
  | all : Ended []
  | interrupted {asked : Request} {name : String} {rest : List String}
      (named : name ∈ asked.names) : Ended (name :: rest)
  | refused {rest : List String}
      (refused : ∀ known, ∃ error, readArguments known rest = .error error) : Ended rest

/-- An item begins the arguments, or there is a reason why none does. -/
theorem begins_or_ended (arguments : List String) :
    (∃ item words rest, Item.Written item words ∧ arguments = words ++ rest) ∨
      Ended arguments := by
  cases arguments with
  | nil => exact .inr .all
  | cons argument rest =>
    have fits := Kind.fits_of argument
    generalize kind : Kind.of argument = found at fits
    cases found with
    | verbosity amount =>
      obtain ⟨count, written, _⟩ := fits
      exact .inl ⟨_, [argument], rest, written, rfl⟩
    | help => exact .inr (@Ended.interrupted .help _ _ fits)
    | version => exact .inr (@Ended.interrupted .version _ _ fits)
    | output =>
      cases rest with
      | nil => exact .inr (.refused fun known => ⟨.missingOutput, by
          rw [readArguments.eq_def]; simp only [kind]⟩)
      | cons path rest => exact .inl ⟨_, [argument, path], rest, .output fits, rfl⟩
    | config =>
      cases rest with
      | nil => exact .inr (.refused fun known => ⟨.missingConfig, by
          rw [readArguments.eq_def]; simp only [kind]⟩)
      | cons path rest => exact .inl ⟨_, [argument, path], rest, .config fits, rfl⟩
    | number option =>
      cases rest with
      | nil => exact .inr (.refused fun known => ⟨.missingNumber option, by
          rw [readArguments.eq_def]; simp only [kind]⟩)
      | cons text rest =>
        cases reads : Text.word? text with
        | none => exact .inr (.refused fun known => ⟨.invalidNumber option text, by
            rw [readArguments.eq_def]; simp only [kind, reads]⟩)
        | some value =>
          exact .inl ⟨_, [argument, text], rest,
            .number fits (Text.word?_eq_some_iff.mp reads), rfl⟩
    | statistics =>
      obtain rfl := List.mem_singleton.mp fits
      exact .inl ⟨_, _, rest, .statistics, rfl⟩
    | quiet => exact .inl ⟨_, [argument], rest, .quiet fits, rfl⟩
    | input => exact .inl ⟨_, [argument], rest, .input fits, rfl⟩
    | unknown => exact .inr (.refused fun known => ⟨.unknownOption argument, by
        rw [readArguments.eq_def]; simp only [kind]⟩)

/-- Any command line splits into items up to where no item begins. -/
theorem exists_splits (arguments : List String) : ∃ words items rest,
    arguments = words ++ rest ∧ Splits words items ∧ Ended rest := by
  induction size : arguments.length using Nat.strongRecOn generalizing arguments with
  | ind size inductionHypothesis =>
    rcases begins_or_ended arguments with ⟨item, words, rest, written, rfl⟩ | ended
    · have some := List.length_pos_iff.mpr written.ne_nil
      rw [List.length_append] at size
      obtain ⟨more, items, tail, rfl, splits, ended⟩ :=
        inductionHypothesis rest.length (by omega) rest rfl
      exact ⟨words ++ more, item :: items, tail, (List.append_assoc ..).symm,
        .item written splits, ended⟩
    · exact ⟨[], [], arguments, rfl, .done, ended⟩

theorem Splits.request (splits : Splits words items) :
    ((inputs items).length ≤ 1 ∧ ∃ next : Arguments, next.SumsUp items ∧
      ∀ rest, CommandLine.request (words ++ rest) = readArguments next rest) ∨
    (1 < (inputs items).length ∧
      ∀ rest, CommandLine.request (words ++ rest) = .error .severalInputs) :=
  splits.read Arguments.sumsUp_none (Nat.zero_le 1)

/-- Whether an option that asks for something in place of a run stands where an item could begin,
and no second input before it. -/
def Interrupted (asked : Request) (arguments : List String) : Prop :=
  ∃ words items name rest, arguments = words ++ name :: rest ∧ Splits words items ∧
    (inputs items).length ≤ 1 ∧ name ∈ asked.names

theorem Interrupted.request_eq {asked : Request} (interrupted : Interrupted asked arguments) :
    request arguments = .ok asked := by
  obtain ⟨words, items, name, rest, rfl, splits, single, named⟩ := interrupted
  rcases splits.request with ⟨_, next, _, goes⟩ | ⟨several, _⟩
  · rw [goes, readArguments_of_names named]
  · exact absurd single (Nat.not_le.mpr several)

/-- A command line that is not refused is read up to its end or to an interruption. -/
theorem splits_or_interrupted {asked : Request} (reads : request arguments = .ok asked) :
    (∃ items, Splits arguments items ∧ (inputs items).length ≤ 1 ∧ ∃ next, asked = .run next) ∨
      Interrupted asked arguments := by
  obtain ⟨words, items, rest, rfl, splits, ended⟩ := exists_splits arguments
  rcases splits.request with ⟨single, next, _, goes⟩ | ⟨_, refused⟩
  · rw [goes] at reads
    cases ended with
    | all =>
      cases reads
      exact .inl ⟨items, by simpa using splits, single, next, rfl⟩
    | interrupted named =>
      rw [readArguments_of_names named] at reads
      cases reads
      exact .inr ⟨words, items, _, _, rfl, splits, single, named⟩
    | refused refused =>
      obtain ⟨error, fails⟩ := refused next
      rw [fails] at reads
      cases reads
  · rw [refused] at reads
    cases reads

/-- What a command line comes to, by the items that it splits into. -/
structure Follows (arguments : List String) : Prop where
  /-- It is accepted exactly if it splits into items with at most one input among them. -/
  accepted : (∃ asked, request arguments = .ok (.run asked)) ↔
    ∃ items, Splits arguments items ∧ (inputs items).length ≤ 1
  /-- If it is accepted, it asks for what its items say, however it is split. -/
  asked : ∀ {asked items}, request arguments = .ok (.run asked) → Splits arguments items →
    asked.SumsUp items
  /-- It is answered with the help text or the version exactly if one of these is asked for where
  an item could begin, before the first error. -/
  interrupted : ∀ {asked}, asked = .help ∨ asked = .version →
    (request arguments = .ok asked ↔ Interrupted asked arguments)

/-- The command line accepts exactly its grammar. -/
theorem request_follows_grammar (arguments : List String) : Follows arguments where
  accepted := by
    constructor
    · rintro ⟨asked, reads⟩
      rcases splits_or_interrupted reads with ⟨items, splits, single, _⟩ | interrupted
      · exact ⟨items, splits, single⟩
      · obtain ⟨_, _, _, _, _, _, _, named⟩ := interrupted
        cases named
    · rintro ⟨items, splits, single⟩
      rcases splits.request with ⟨_, next, _, goes⟩ | ⟨several, _⟩
      · exact ⟨next, by simpa [readArguments] using goes []⟩
      · exact absurd single (Nat.not_le.mpr several)
  asked := by
    intro asked items reads splits
    rcases splits.request with ⟨_, next, sums, goes⟩ | ⟨_, refused⟩
    · have same := goes []
      rw [List.append_nil, reads] at same
      cases same
      exact sums
    · have same := refused []
      rw [List.append_nil, reads] at same
      cases same
  interrupted := by
    intro asked special
    refine ⟨fun reads => ?_, Interrupted.request_eq⟩
    rcases splits_or_interrupted reads with ⟨_, _, _, next, rfl⟩ | interrupted
    · rcases special with same | same <;> cases same
    · exact interrupted

/-- A command line whose values look like options, with letters that raise the verbosity twice. -/
def mixedLine : List String :=
  ["-vv", "-o", "-q", "--threads", "+007", "-", "--verbose", "-o", "-h", "--stats"]

theorem request_of_mixedLine : ∃ items, Splits mixedLine items ∧
    request mixedLine = .ok (.run ⟨some "-", some "-h", none, some 7, none, none, true, 3, false⟩) ∧
    Arguments.SumsUp ⟨some "-", some "-h", none, some 7, none, none, true, 3, false⟩ items := by
  have reads : request mixedLine =
      .ok (.run ⟨some "-", some "-h", none, some 7, none, none, true, 3, false⟩) := rfl
  obtain ⟨items, splits, _⟩ := (request_follows_grammar mixedLine).accepted.mp ⟨_, reads⟩
  exact ⟨items, splits, reads, (request_follows_grammar mixedLine).asked reads splits⟩

end Outlining.CommandLine
