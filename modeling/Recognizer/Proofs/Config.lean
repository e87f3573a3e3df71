import Recognizer.Proofs.Yaml.Entry

/-!
Patterns as configurations and pattern files hold them. A file gives its text; a document gives the
text of the value that the pattern resolves to. The two are one text unless the pattern resolves to
a number, and even then if the number is written as it was spelled. Nothing is said of a library for
documents beyond what it makes of one entry and of whole numbers.
-/

namespace Recognizer

open Yaml

theorem trim_plain {word : List Char} (plain : ∀ character ∈ word, isPlain character = true) :
    Text.trim word = word := by
  have filled : ∀ character ∈ word, Text.isBlank character = false := by
    intro character member
    have apart := forall_plain (fun other => !Text.isBlank other) (by decide +kernel)
      (plain character member)
    simpa using apart
  have front : word.dropWhile Text.isBlank = word := by
    cases word with
    | nil => rfl
    | cons first rest => simp [filled first List.mem_cons_self]
  rw [Text.trim, front]
  exact Text.dropEndWhile_eq_self fun last ends => filled last (List.mem_of_getLast? ends)

theorem trimmed_plain {word : List Char} (plain : ∀ character ∈ word, isPlain character = true) :
    Config.trimmed (String.ofList word) = String.ofList word := by
  rw [Config.trimmed, String.toList_ofList, trim_plain plain]

theorem regex_file {word : List Char} (plain : ∀ character ∈ word, isPlain character = true) :
    Content.regex (.ok (String.ofList word).toUTF8) = .ok (String.ofList word) := by
  have text : Content.text (.ok (String.ofList word).toUTF8) = .ok (String.ofList word) := by
    rw [Content.text, Text.fromUTF8?_toUTF8]
  rw [Content.regex, text]
  exact congrArg Except.ok (trimmed_plain plain)

section Reading

variable {Number : Type} {library : Library Number} {resolve : List Char → Option (Value Number)}
  {natural : Nat → Number} {word : List Char}

/-- What is relied on of a library. Its reader gives a document of one entry the value that the word
resolves to, a word that is a string is the string that it spells, a decimal numeral is no whole
number but the one that it writes, and a whole number is displayed in decimal. -/
structure Yaml.Library.Reads (library : Library Number)
    (resolve : List Char → Option (Value Number)) (natural : Nat → Number) : Prop where
  entry : ∀ word, (∀ character ∈ word, isPlain character = true) → ∀ breaks,
    library.entries? (regexEntry word breaks) = (resolve word).map fun value => [("regex", value)]
  string : ∀ word text, resolve word = some (.string text) → text = String.ofList word
  decimal : ∀ value other, resolve (Nat.toDigits 10 value) = some (.number (natural other)) →
    other = value
  display : ∀ value, library.text (natural value) = Nat.toDigits 10 value

theorem reads_library : Yaml.library.Reads Value.ofPlain? .natural where
  entry word plain breaks := by
    change (Document.read? (regexEntry word breaks)).bind Document.entries? = _
    rw [read?_regexEntry plain]
    exact entries?_entryDocument word
  string _ _ := string_of_ofPlain?
  decimal _ _ := Number.eq_of_toDigits
  display _ := rfl

namespace Config

/-- The document gives what the word resolves to, if that is a string or a number. -/
theorem ofDocument_regexEntry (reads : library.Reads resolve natural)
    (plain : ∀ character ∈ word, isPlain character = true) (breaks : Nat) :
    ofDocument library (regexEntry word breaks) =
      match resolve word with
      | none => .error .malformedDocument
      | some value => (regexOf library value).map ofRegex := by
  rw [ofDocument, reads.entry word plain]
  cases resolve word with
  | none => rfl
  | some value =>
    change ofEntries library [("regex", value)] = _
    have here : [("regex", value)].lookup "regex" = some value := rfl
    rw [ofEntries, here]
    cases regexOf library value <;> rfl

/-- The pattern of a configuration is the word itself or the text of the number that it spells. -/
theorem regex_of_entry (reads : library.Reads resolve natural)
    (plain : ∀ character ∈ word, isPlain character = true) {breaks : Nat} {config : Config}
    (parsed : ofDocument library (regexEntry word breaks) = .ok config) :
    (∃ number, resolve word = some (.number number) ∧
        config = ofRegex (String.ofList (library.text number))) ∨
      (∃ text, resolve word = some (.string text)) ∧ config = ofRegex (String.ofList word) := by
  rw [ofDocument_regexEntry reads plain] at parsed
  cases spelled : resolve word with
  | none =>
    rw [spelled] at parsed
    cases parsed
  | some value =>
    rw [spelled] at parsed
    cases value with
    | number number =>
      cases parsed
      exact Or.inl ⟨number, rfl, rfl⟩
    | string text =>
      cases reads.string word text spelled
      cases parsed
      exact Or.inr ⟨⟨_, rfl⟩, congrArg ofRegex (trimmed_plain plain)⟩
    | null | bool | sequence | mapping | tagged => cases parsed

/-- A whole number is written as it was spelled when it was spelled as a decimal numeral. -/
theorem text_natural_eq_iff (reads : library.Reads resolve natural) {value : Nat}
    (spelled : resolve word = some (.number (natural value))) :
    library.text (natural value) = word ↔ Text.IsNumeral word := by
  rw [reads.display, Text.isNumeral_iff]
  constructor
  · intro same
    exact ⟨value, same.symm⟩
  · rintro ⟨written, rfl⟩
    rw [reads.decimal written value spelled]

/-- A pattern of letters, digits and points is the same in a configuration and in a file, unless it
resolves to a number that is displayed otherwise than it was spelled. A whole number is displayed as
it was spelled when it was spelled as a decimal numeral, and only then. For other numbers, with a
sign, a fraction or an exponent, no condition on the spelling is given beyond this: it has to be the
one that the library displays. -/
theorem entry_agrees_iff (reads : library.Reads resolve natural)
    (plain : ∀ character ∈ word, isPlain character = true) {breaks : Nat} {config : Config}
    (parsed : ofDocument library (regexEntry word breaks) = .ok config) :
    Content.regex (.ok (String.ofList word).toUTF8) = .ok (String.ofList word) ∧
      (config.regex = String.ofList word ↔
        ∀ number, resolve word = some (.number number) → library.text number = word) ∧
      ∀ value, resolve word = some (.number (natural value)) →
        (config.regex = String.ofList word ↔ Text.IsNumeral word) := by
  have agrees : config.regex = String.ofList word ↔
      ∀ number, resolve word = some (.number number) → library.text number = word := by
    rcases regex_of_entry reads plain parsed with ⟨number, spelled, same⟩ | ⟨⟨text, spelled⟩, same⟩
    · subst same
      rw [spelled]
      constructor
      · intro equal other again
        cases again
        exact String.ofList_injective equal
      · intro written
        exact congrArg String.ofList (written number rfl)
    · subst same
      refine ⟨fun _ number again => ?_, fun _ => rfl⟩
      cases spelled.symm.trans again
  refine ⟨regex_file plain, agrees, fun value spelled => ?_⟩
  rw [agrees, ← text_natural_eq_iff reads spelled]
  constructor
  · intro written
    exact written (natural value) spelled
  · intro same number again
    cases spelled.symm.trans again
    exact same

/-- One hundred and one in decimal, with the library of the program. -/
theorem entry_agrees_decimal :
    Yaml.library.Reads Value.ofPlain? .natural ∧
      ofDocument Yaml.library (regexEntry ['1', '0', '1'] 1) = .ok (ofRegex "101") ∧
      Value.ofPlain? ['1', '0', '1'] = some (.number (.natural 101)) ∧
      Text.IsNumeral ['1', '0', '1'] ∧
      ((ofRegex "101").regex = String.ofList ['1', '0', '1'] ↔
        Text.IsNumeral ['1', '0', '1']) := by
  have plain : ∀ character ∈ ['1', '0', '1'], isPlain character = true :=
    List.all_eq_true.mp (by decide +kernel)
  have parsed : ofDocument Yaml.library (regexEntry ['1', '0', '1'] 1) = .ok (ofRegex "101") := by
    decide +kernel
  have spelled : Value.ofPlain? ['1', '0', '1'] = some (.number (.natural 101)) := by
    have read : Number.integer? ['1', '0', '1'] = some 101 := by decide +kernel
    have fits : Number.ofInteger? 101 = some (.natural 101) := by decide +kernel
    simp [Value.ofPlain?, Value.isNull, Value.bool?, read, fits]
  have agrees := (entry_agrees_iff reads_library plain parsed).2.2 101 spelled
  exact ⟨reads_library, parsed, spelled, agrees.mp rfl, agrees⟩

/-- With the library of the program, a hexadecimal number is rewritten in decimal, so the two
sources give different patterns. -/
theorem entry_differs_hexadecimal :
    Yaml.library.Reads Value.ofPlain? .natural ∧
      ofDocument Yaml.library (regexEntry ['0', 'x', '1', 'F'] 1) = .ok (ofRegex "31") ∧
      Content.regex (.ok (String.ofList ['0', 'x', '1', 'F']).toUTF8) = .ok "0x1F" ∧
      "31" ≠ "0x1F" := by
  refine ⟨reads_library, by decide +kernel, ?_, by decide⟩
  exact regex_file (List.all_eq_true.mp (by decide +kernel))

end Config

end Reading

end Recognizer
