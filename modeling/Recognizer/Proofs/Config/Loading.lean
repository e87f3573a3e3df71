import Recognizer.Proofs.Text
import Recognizer.Yaml.Value

/-!
Which entries make a configuration. Three keys have a rule each for their value, and all other
entries and the order of the entries do not count. What is wrong with a value does not depend on the
other values; of several faults the first in a fixed order is reported.
-/

namespace Recognizer.Config

open Yaml (Value Library)

variable {Number : Type}

/-- A pattern is a string without the white space around it, or the text of a number. -/
inductive GivesRegex (library : Library Number) : Value Number → String → Prop
  | string {text regex : String} :
      Text.IsCore text.toList regex.toList → GivesRegex library (.string text) regex
  | number (number : Number) :
      GivesRegex library (.number number) (String.ofList (library.text number))

inductive GivesWords : Option (Value Number) → List String → Prop
  | absent : GivesWords none []
  | null : GivesWords (some .null) []
  | sequence (words : List String) : GivesWords (some (.sequence (words.map .string))) words

inductive GivesOutput : Option (Value Number) → Option String → Prop
  | absent : GivesOutput none none
  | null : GivesOutput (some .null) none
  | string (path : String) : GivesOutput (some (.string path)) (some path)

structure Loads (library : Library Number) (entries : List (String × Value Number))
    (config : Config) : Prop where
  regex : ∃ value, entries.lookup "regex" = some value ∧ GivesRegex library value config.regex
  words : GivesWords (entries.lookup "words") config.words
  output : GivesOutput (entries.lookup "output") config.output

/-- What is wrong with the entries, whatever else is wrong with them. -/
inductive Ails (entries : List (String × Value Number)) : Fault → Prop
  | missing : entries.lookup "regex" = none → Ails entries (.missingKey "regex")
  | regex {value : Value Number} : entries.lookup "regex" = some value →
      (∀ text, value ≠ .string text) → (∀ number, value ≠ .number number) →
        Ails entries (.misfit .regex)
  | words {value : Value Number} : entries.lookup "words" = some value →
      value ≠ .null → (∀ items, value ≠ .sequence items) → Ails entries (.misfit .words)
  | wordElement {items : List (Value Number)} {item : Value Number} :
      entries.lookup "words" = some (.sequence items) → item ∈ items →
        (∀ text, item ≠ .string text) → Ails entries (.misfit .wordElement)
  | output {value : Value Number} : entries.lookup "output" = some value →
      value ≠ .null → (∀ path, value ≠ .string path) → Ails entries (.misfit .output)

def faults : List Fault :=
  [.missingKey "regex", .misfit .regex, .misfit .words, .misfit .wordElement, .misfit .output]

variable {library : Library Number} {entries : List (String × Value Number)} {config : Config}

section Values

theorem regexOf_settles (library : Library Number) (value : Value Number) :
    (∃ regex, regexOf library value = .ok regex ∧ GivesRegex library value regex) ∨
      (regexOf library value = .error (.misfit .regex) ∧
        (∀ text, value ≠ .string text) ∧ ∀ number, value ≠ .number number) := by
  cases value with
  | string text =>
    refine Or.inl ⟨_, rfl, GivesRegex.string ?_⟩
    rw [trimmed, String.toList_ofList]
    exact Text.isCore_trim text.toList
  | number number => exact Or.inl ⟨_, rfl, GivesRegex.number number⟩
  | null | bool | sequence | mapping | tagged => exact Or.inr ⟨rfl, by simp, by simp⟩

theorem wordOf_settles (value : Value Number) :
    (∃ word, value = .string word ∧ wordOf value = .ok word) ∨
      (wordOf value = .error (.misfit .wordElement) ∧ ∀ text, value ≠ .string text) := by
  cases value with
  | string text => exact Or.inl ⟨text, rfl, rfl⟩
  | null | bool | number | sequence | mapping | tagged => exact Or.inr ⟨rfl, by simp⟩

/-- The words are all items in their order, or some item is no word. -/
theorem mapM_wordOf_settles (items : List (Value Number)) :
    (∃ words : List String, items = words.map .string ∧ items.mapM wordOf = .ok words) ∨
      (items.mapM wordOf = .error (.misfit .wordElement) ∧
        ∃ item ∈ items, ∀ text, item ≠ .string text) := by
  induction items with
  | nil => exact Or.inl ⟨[], rfl, rfl⟩
  | cons first rest ih =>
    rw [List.mapM_cons]
    rcases wordOf_settles first with ⟨word, string, made⟩ | ⟨failed, other⟩
    · rw [made]
      rcases ih with ⟨words, strings, all⟩ | ⟨failed, item, member, other⟩
      · rw [all]
        exact Or.inl ⟨word :: words, by rw [List.map_cons, string, strings], rfl⟩
      · rw [failed]
        exact Or.inr ⟨rfl, item, List.mem_cons_of_mem first member, other⟩
    · rw [failed]
      exact Or.inr ⟨rfl, first, List.mem_cons_self, other⟩

theorem wordsOf_settles (value : Option (Value Number)) :
    (∃ words, wordsOf value = .ok words ∧ GivesWords value words) ∨
      (wordsOf value = .error (.misfit .words) ∧
        ∃ given, value = some given ∧ given ≠ .null ∧ ∀ items, given ≠ .sequence items) ∨
      (wordsOf value = .error (.misfit .wordElement) ∧
        ∃ items, value = some (.sequence items) ∧ ∃ item ∈ items, ∀ text, item ≠ .string text) := by
  cases value with
  | none => exact Or.inl ⟨[], rfl, GivesWords.absent⟩
  | some given =>
    cases given with
    | null => exact Or.inl ⟨[], rfl, GivesWords.null⟩
    | sequence items =>
      rcases mapM_wordOf_settles items with ⟨words, strings, made⟩ | ⟨failed, other⟩
      · subst strings
        exact Or.inl ⟨words, made, GivesWords.sequence words⟩
      · exact Or.inr (Or.inr ⟨failed, items, rfl, other⟩)
    | bool | number | string | mapping | tagged =>
      exact Or.inr (Or.inl ⟨rfl, _, rfl, by simp, by simp⟩)

theorem outputOf_settles (value : Option (Value Number)) :
    (∃ output, outputOf value = .ok output ∧ GivesOutput value output) ∨
      (outputOf value = .error (.misfit .output) ∧
        ∃ given, value = some given ∧ given ≠ .null ∧ ∀ path, given ≠ .string path) := by
  cases value with
  | none => exact Or.inl ⟨none, rfl, GivesOutput.absent⟩
  | some given =>
    cases given with
    | null => exact Or.inl ⟨none, rfl, GivesOutput.null⟩
    | string path => exact Or.inl ⟨some path, rfl, GivesOutput.string path⟩
    | bool | number | sequence | mapping | tagged => exact Or.inr ⟨rfl, _, rfl, by simp, by simp⟩

theorem GivesRegex.unique {value : Value Number} {first second : String}
    (gives : GivesRegex library value first) (again : GivesRegex library value second) :
    first = second := by
  cases gives with
  | string core =>
    cases again with
    | string other =>
      have same := (Text.trim_of_isCore core).symm.trans (Text.trim_of_isCore other)
      exact String.toList_injective same
  | number number =>
    cases again
    rfl

theorem GivesWords.unique {value : Option (Value Number)} {first second : List String}
    (gives : GivesWords value first) (again : GivesWords value second) : first = second := by
  cases gives with
  | absent | null =>
    cases again
    rfl
  | sequence =>
    generalize spelled : some (Value.sequence (first.map .string)) = given at again
    cases again with
    | absent | null => cases spelled
    | sequence =>
      have injective : Function.Injective (@Value.string Number) := fun _ _ => Value.string.inj
      exact injective.list_map (Value.sequence.inj (Option.some.inj spelled))

theorem GivesOutput.unique {value : Option (Value Number)} {first second : Option String}
    (gives : GivesOutput value first) (again : GivesOutput value second) : first = second := by
  cases gives <;> cases again <;> rfl

end Values

theorem Loads.unique {other : Config} (loads : Loads library entries config)
    (again : Loads library entries other) : config = other := by
  obtain ⟨value, found, regex⟩ := loads.regex
  obtain ⟨same, foundAgain, regexAgain⟩ := again.regex
  cases found.symm.trans foundAgain
  have sameRegex := regex.unique regexAgain
  have sameWords := loads.words.unique again.words
  have sameOutput := loads.output.unique again.output
  cases config
  cases other
  simp_all

section Faults

theorem not_ails_missing {value : Value Number} (found : entries.lookup "regex" = some value) :
    ¬Ails entries (.missingKey "regex") := by
  intro ails
  cases ails with
  | missing absent => cases found.symm.trans absent

theorem not_ails_regex {value : Value Number} {regex : String}
    (found : entries.lookup "regex" = some value) (gives : GivesRegex library value regex) :
    ¬Ails entries (.misfit .regex) := by
  intro ails
  cases ails with
  | regex again noString noNumber =>
    cases found.symm.trans again
    cases gives with
    | string => exact noString _ rfl
    | number => exact noNumber _ rfl

theorem not_ails_words_of_sequence {items : List (Value Number)}
    (found : entries.lookup "words" = some (.sequence items)) :
    ¬Ails entries (.misfit .words) := by
  intro ails
  cases ails with
  | words again _ other =>
    cases found.symm.trans again
    exact other items rfl

theorem not_ails_words {words : List String} (gives : GivesWords (entries.lookup "words") words) :
    ¬Ails entries (.misfit .words) := by
  intro ails
  cases ails with
  | words found notNull other =>
    rw [found] at gives
    cases gives with
    | null => exact notNull rfl
    | sequence => exact other _ rfl

theorem not_ails_wordElement {words : List String}
    (gives : GivesWords (entries.lookup "words") words) : ¬Ails entries (.misfit .wordElement) := by
  intro ails
  cases ails with
  | wordElement found member other =>
    rw [found] at gives
    cases gives with
    | sequence =>
      obtain ⟨word, _, same⟩ := List.mem_map.mp member
      exact other word same.symm

theorem not_ails_output {output : Option String}
    (gives : GivesOutput (entries.lookup "output") output) : ¬Ails entries (.misfit .output) := by
  intro ails
  cases ails with
  | output found notNull other =>
    rw [found] at gives
    cases gives with
    | null => exact notNull rfl
    | string path => exact other path rfl

/-- Nothing is wrong with entries that make a configuration. -/
theorem not_ails_of_loads (loads : Loads library entries config) (fault : Fault) :
    ¬Ails entries fault := by
  obtain ⟨value, found, regex⟩ := loads.regex
  intro ails
  have same := ails
  cases same with
  | missing => exact not_ails_missing found ails
  | regex => exact not_ails_regex found regex ails
  | words => exact not_ails_words loads.words ails
  | wordElement => exact not_ails_wordElement loads.words ails
  | output => exact not_ails_output loads.output ails

theorem mem_faults {fault : Fault} (ails : Ails entries fault) : fault ∈ faults := by
  cases ails <;> decide

structure First (entries : List (String × Value Number)) (fault : Fault) : Prop where
  ails : Ails entries fault
  earliest : ∀ other, Ails entries other → faults.idxOf fault ≤ faults.idxOf other

theorem First.unique {fault other : Fault} (first : First entries fault)
    (again : First entries other) : fault = other := by
  have same := Nat.le_antisymm (first.earliest other again.ails) (again.earliest fault first.ails)
  exact (List.idxOf_inj (mem_faults first.ails)).mp same

/-- A fault is the first if those before it in the order are passed. -/
theorem first_of_passed {fault : Fault} (place : Nat) (stands : faults[place]? = some fault)
    (passed : ∀ earlier ∈ faults.take place, ¬Ails entries earlier) (ails : Ails entries fault) :
    First entries fault where
  ails := ails
  earliest := by
    have distinct : faults.Nodup := by decide
    obtain ⟨bound, same⟩ := List.getElem?_eq_some_iff.mp stands
    intro other wrong
    rw [← same, distinct.idxOf_getElem place bound]
    by_contra below
    have member := (List.mem_take_iff_idxOf_lt (mem_faults wrong)).mpr (Nat.lt_of_not_le below)
    exact passed other member wrong

end Faults

/-- The values are examined one after another. -/
theorem ofEntries_of_regex {value : Value Number} (found : entries.lookup "regex" = some value) :
    ofEntries library entries =
      (regexOf library value).bind fun regex =>
        (wordsOf (entries.lookup "words")).bind fun words =>
          (outputOf (entries.lookup "output")).bind fun output => .ok ⟨regex, words, output⟩ := by
  rw [ofEntries, found]
  rfl

theorem ofEntries_settles (library : Library Number) (entries : List (String × Value Number)) :
    (∃ config, ofEntries library entries = .ok config ∧ Loads library entries config) ∨
      ∃ fault, ofEntries library entries = .error fault ∧ First entries fault := by
  cases found : entries.lookup "regex" with
  | none =>
    have stopped : ofEntries library entries = .error (.missingKey "regex") := by
      rw [ofEntries, found]
      rfl
    have first := first_of_passed 0 rfl (List.forall_mem_nil _) (Ails.missing found)
    exact Or.inr ⟨_, stopped, first⟩
  | some value =>
    have present := not_ails_missing found
    rw [ofEntries_of_regex found]
    rcases regexOf_settles library value with ⟨regex, made, givesRegex⟩ |
      ⟨failed, noString, noNumber⟩
    · have regexFits := not_ails_regex found givesRegex
      rw [made]
      rcases wordsOf_settles (entries.lookup "words") with ⟨words, made, givesWords⟩ |
        ⟨failed, given, listed, notNull, other⟩ | ⟨failed, items, listed, item, member, other⟩
      · have wordsFit := not_ails_words givesWords
        have elementsFit := not_ails_wordElement givesWords
        rw [made]
        rcases outputOf_settles (entries.lookup "output") with ⟨output, made, givesOutput⟩ |
          ⟨failed, given, listed, notNull, other⟩
        · rw [made]
          exact Or.inl ⟨_, rfl, ⟨value, found, givesRegex⟩, givesWords, givesOutput⟩
        · rw [failed]
          have first := first_of_passed 4 rfl
            (by simp [faults, present, regexFits, wordsFit, elementsFit])
            (Ails.output listed notNull other)
          exact Or.inr ⟨_, rfl, first⟩
      · rw [failed]
        have first := first_of_passed 2 rfl (by simp [faults, present, regexFits])
          (Ails.words listed notNull other)
        exact Or.inr ⟨_, rfl, first⟩
      · have wordsFit := not_ails_words_of_sequence listed
        rw [failed]
        have first := first_of_passed 3 rfl (by simp [faults, present, regexFits, wordsFit])
          (Ails.wordElement listed member other)
        exact Or.inr ⟨_, rfl, first⟩
    · rw [failed]
      have first := first_of_passed 1 rfl (by simp [faults, present])
        (Ails.regex found noString noNumber)
      exact Or.inr ⟨_, rfl, first⟩

theorem ofEntries_ok_iff :
    ofEntries library entries = .ok config ↔ Loads library entries config := by
  rcases ofEntries_settles library entries with ⟨other, done, loads⟩ | ⟨fault, failed, first⟩
  · rw [done]
    constructor
    · intro same
      exact Except.ok.inj same ▸ loads
    · intro again
      exact congrArg Except.ok (loads.unique again)
  · rw [failed]
    exact ⟨nofun, fun loads => absurd first.ails (not_ails_of_loads loads fault)⟩

theorem ofEntries_error_iff {fault : Fault} :
    ofEntries library entries = .error fault ↔ First entries fault := by
  rcases ofEntries_settles library entries with ⟨other, done, loads⟩ | ⟨other, failed, first⟩
  · rw [done]
    exact ⟨nofun, fun first => absurd first.ails (not_ails_of_loads loads fault)⟩
  · rw [failed]
    constructor
    · intro same
      exact Except.error.inj same ▸ first
    · intro again
      exact congrArg Except.error (first.unique again)

section Arrangement

def keys : List String := ["regex", "words", "output"]

def counts (entry : String × Value Number) : Bool := entry.1 ∈ keys

theorem lookup_filter_counts {key : String} (known : key ∈ keys)
    (entries : List (String × Value Number)) :
    (entries.filter counts).lookup key = entries.lookup key := by
  induction entries with
  | nil => rfl
  | cons entry rest ih =>
    by_cases kept : counts entry = true
    · rw [List.filter_cons_of_pos kept, List.lookup_cons, List.lookup_cons, ih]
    · have other : key ≠ entry.1 := by
        rintro rfl
        exact kept (decide_eq_true known)
      rw [List.filter_cons_of_neg kept, ih, List.lookup_cons, beq_false_of_ne other]

theorem lookup_of_perm {first second : List (String × Value Number)} (perm : first.Perm second)
    (distinct : (second.map Prod.fst).Nodup) (key : String) :
    first.lookup key = second.lookup key := by
  have again : (first.map Prod.fst).Nodup := (perm.map Prod.fst).nodup_iff.mpr distinct
  apply Option.ext
  intro value
  rw [OrderedTable.lookup_eq_some_iff again, OrderedTable.lookup_eq_some_iff distinct,
    perm.mem_iff]

theorem ofEntries_congr {others : List (String × Value Number)}
    (same : ∀ key ∈ keys, others.lookup key = entries.lookup key) :
    ofEntries library others = ofEntries library entries := by
  have regex : others.lookup "regex" = entries.lookup "regex" := same _ (by decide)
  have words : others.lookup "words" = entries.lookup "words" := same _ (by decide)
  have output : others.lookup "output" = entries.lookup "output" := same _ (by decide)
  rw [ofEntries, ofEntries, regex, words, output]

/-- Entries under the three keys may change places among each other and among any other entries. -/
theorem ofEntries_of_perm {others : List (String × Value Number)}
    (distinct : (entries.map Prod.fst).Nodup)
    (perm : (others.filter counts).Perm (entries.filter counts)) :
    ofEntries library others = ofEntries library entries := by
  have kept : ((entries.filter counts).map Prod.fst).Nodup :=
    distinct.sublist (List.filter_sublist.map Prod.fst)
  apply ofEntries_congr
  intro key known
  rw [← lookup_filter_counts known others, ← lookup_filter_counts known entries]
  exact lookup_of_perm perm kept key

end Arrangement

/-- Entries make a configuration exactly when each of the three keys has a value that fits; the
pattern is trimmed, words and output are taken as they are. Otherwise the first thing that is wrong
is reported. Neither the order of the entries nor any entry under another key changes the result. -/
theorem ofEntries_exact (library : Library Number) (distinct : (entries.map Prod.fst).Nodup) :
    (∀ config, ofEntries library entries = .ok config ↔ Loads library entries config) ∧
      (∀ fault, ofEntries library entries = .error fault ↔ First entries fault) ∧
      ∀ others : List (String × Value Number), (others.filter counts).Perm (entries.filter counts) →
        ofEntries library others = ofEntries library entries :=
  ⟨fun _ => ofEntries_ok_iff, fun _ => ofEntries_error_iff,
    fun _ perm => ofEntries_of_perm distinct perm⟩

/-- Two values are wrong at once, and the words are examined before the output. -/
theorem ofEntries_exact_muddled :
    let muddled : List (String × Value Yaml.Number) := [("output", .sequence []), ("extra", .null),
      ("words", .sequence [.string "ab", .bool true]), ("regex", .string " a ")]
    let tidied : List (String × Value Yaml.Number) := [("regex", .string " a "),
      ("words", .sequence [.string "ab", .bool true]), ("output", .sequence []), ("more", .null)]
    (muddled.map Prod.fst).Nodup ∧ First muddled (.misfit .wordElement) ∧
      ofEntries Yaml.library tidied = .error (.misfit .wordElement) := by
  intro muddled tidied
  have distinct : (muddled.map Prod.fst).Nodup := by decide
  obtain ⟨_, reports, rearranged⟩ := ofEntries_exact Yaml.library distinct
  have failed : ofEntries Yaml.library muddled = .error (.misfit .wordElement) := rfl
  have perm : (tidied.filter counts).Perm (muddled.filter counts) := by
    change [_, _, _].Perm [_, _, _]
    exact List.reverse_perm [_, _, _]
  exact ⟨distinct, (reports _).mp failed, (rearranged tidied perm).trans failed⟩

end Recognizer.Config
