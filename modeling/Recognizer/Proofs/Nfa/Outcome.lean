import Recognizer.Proofs.Nfa.Shortage
import Recognizer.Proofs.Pattern.Tally

/-!
What becomes of a text in postorder, whatever text it is. A foreign character is reported first,
wherever it stands. Then the first character counts that the builder cannot take in: a parenthesis,
or an operator before which literals and binary operators leave too few operands. If there is none,
the text is empty, or it leaves as many fragments as it has literals more than binary operators.
-/

namespace Recognizer.Pattern

/-- How many operands a text leaves: a literal adds one, a binary operator takes one away. -/
def height (text : List Char) : Int :=
  (letters text).length - text.count '|' - text.count '.'

theorem height_nil : height [] = 0 := rfl

section Read

variable {text : List Char} {tokens : List Token}

theorem height_of_read (read : Token.read text = .ok tokens) :
    height text = Token.weigh tokens := by
  have unions : text.count '|' = tokens.count .union := count_of_read read rfl
  have concats : text.count '.' = tokens.count .concat := count_of_read read rfl
  rw [height, length_letters_of_read read, unions, concats, Token.weigh_eq_counts]

theorem read_take (read : Token.read text = .ok tokens) (place : Nat) :
    Token.read (text.take place) = .ok (tokens.take place) := by
  rw [Token.read_ok_iff] at read ⊢
  rw [List.map_take, List.map_take, read]

theorem getElem?_of_read (read : Token.read text = .ok tokens) {character : Char} {token : Token}
    (spells : Token.ofChar? character = some token) {place : Nat} :
    text[place]? = some character ↔ tokens[place]? = some token := by
  have spelled := Token.text_of_read read
  subst spelled
  rw [Token.text, List.getElem?_map, Option.map_eq_some_iff]
  constructor
  · rintro ⟨other, stands, same⟩
    have known := Token.ofChar?_of_read read (List.mem_of_getElem? stands)
    rw [same, spells] at known
    rw [stands, known]
  · intro stands
    exact ⟨token, stands, Token.toChar_of_ofChar? spells⟩

end Read

end Recognizer.Pattern

namespace Recognizer.Nfa

open Pattern

/-- A parenthesis stands at the place, or an operator that finds too few operands before it. -/
def StuckAt (text : List Char) (place : Nat) : Prop :=
  text[place]? = some '(' ∨ text[place]? = some ')' ∨
    (text[place]? = some '*' ∧ height (text.take place) = 0) ∨
    ((text[place]? = some '|' ∨ text[place]? = some '.') ∧ height (text.take place) ≤ 1)

theorem stuckAt_iff_of_read {text : List Char} {tokens : List Token}
    (read : Token.read text = .ok tokens) {place : Nat} :
    StuckAt text place ↔ StarvesAt 0 tokens place := by
  have opening : text[place]? = some '(' ↔ tokens[place]? = some .opening :=
    getElem?_of_read read rfl
  have closing : text[place]? = some ')' ↔ tokens[place]? = some .closing :=
    getElem?_of_read read rfl
  have star : text[place]? = some '*' ↔ tokens[place]? = some .star := getElem?_of_read read rfl
  have union : text[place]? = some '|' ↔ tokens[place]? = some .union := getElem?_of_read read rfl
  have concat : text[place]? = some '.' ↔ tokens[place]? = some .concat :=
    getElem?_of_read read rfl
  rw [StuckAt, StarvesAt, opening, closing, star, union, concat,
    height_of_read (read_take read place), Int.zero_add]
  cases tokens[place]? with
  | none => simp
  | some token => cases token <;> simp [Starves]

theorem not_stuckAt_nil (place : Nat) : ¬StuckAt [] place := by
  simp [StuckAt]

inductive Cause (text : List Char) : Malformed → Prop
  | foreign {symbol : Char} {position : Nat} : ForeignAt text symbol position →
      Cause text (.unsupportedCharacter symbol position)
  | group {parenthesis : Char} {position : Nat} : Supported text →
      IsLeast {place | StuckAt text place} position → text[position]? = some parenthesis →
        parenthesis ∈ ['(', ')'] → Cause text (.unbalancedParenthesis position)
  | short {operator : Char} {position : Nat} : Supported text →
      IsLeast {place | StuckAt text place} position → text[position]? = some operator →
        operator ∉ ['(', ')'] → Cause text (.missingOperand operator position)
  | empty : text = [] → Cause text .emptyExpression
  | dangling {count : Nat} : Supported text → (∀ place, ¬StuckAt text place) →
      height text = count → 1 < count → Cause text (.danglingOperands count)

structure Sound (text : List Char) : Prop where
  supported : Supported text
  sated : ∀ place, ¬StuckAt text place
  full : height text = 1

/-- The causes exclude one another. -/
theorem cause_unique {text : List Char} {report other : Malformed} (cause : Cause text report)
    (again : Cause text other) : report = other := by
  cases cause with
  | foreign foreign =>
    have unsupported := not_supported_of_foreignAt foreign
    cases again with
    | foreign again =>
      obtain ⟨sameSymbol, samePlace⟩ := foreignAt_unique foreign again
      rw [sameSymbol, samePlace]
    | empty empty => exact absurd (empty ▸ List.forall_mem_nil _) unsupported
    | group supported | short supported | dangling supported => exact absurd supported unsupported
  | group supported first stands parenthesis =>
    cases again with
    | foreign again => exact absurd supported (not_supported_of_foreignAt again)
    | group _ again => rw [first.unique again]
    | short _ again there apart =>
      rw [← first.unique again, stands] at there
      exact absurd (Option.some.inj there ▸ parenthesis) apart
    | empty empty => exact absurd first.1 (empty ▸ not_stuckAt_nil _)
    | dangling _ sated => exact absurd first.1 (sated _)
  | short supported first stands apart =>
    cases again with
    | foreign again => exact absurd supported (not_supported_of_foreignAt again)
    | group _ again there parenthesis =>
      rw [← first.unique again, stands] at there
      exact absurd (Option.some.inj there ▸ parenthesis) apart
    | short _ again there =>
      rw [← first.unique again, stands] at there
      rw [first.unique again, Option.some.inj there]
    | empty empty => exact absurd first.1 (empty ▸ not_stuckAt_nil _)
    | dangling _ sated => exact absurd first.1 (sated _)
  | empty empty =>
    subst empty
    cases again with
    | foreign again => cases again.2.1
    | group _ again | short _ again => exact absurd again.1 (not_stuckAt_nil _)
    | empty => rfl
    | dangling _ _ full many =>
      rw [height_nil] at full
      omega
  | dangling supported sated full many =>
    cases again with
    | foreign again => exact absurd supported (not_supported_of_foreignAt again)
    | group _ again | short _ again => exact absurd again.1 (sated _)
    | empty empty =>
      rw [empty, height_nil] at full
      omega
    | dangling _ _ again => rw [Int.ofNat.inj (full.symm.trans again)]

theorem not_sound_of_cause {text : List Char} {report : Malformed} (cause : Cause text report) :
    ¬Sound text := by
  rintro ⟨supported, sated, full⟩
  cases cause with
  | foreign foreign => exact not_supported_of_foreignAt foreign supported
  | group _ first | short _ first => exact sated _ first.1
  | empty empty =>
    rw [empty] at full
    cases full
  | dangling _ _ again many => omega

theorem outcome_of_read {text : List Char} {tokens : List Token}
    (read : Token.read text = .ok tokens) (supported : Supported text) :
    (Sound text ∧ ∃ nfa, ofTokens tokens = .ok nfa) ∨
      ∃ report, Cause text report ∧ ofTokens tokens = .error report := by
  have stuck (place : Nat) : StuckAt text place ↔ StarvesAt 0 tokens place :=
    stuckAt_iff_of_read read
  have places : {place | StuckAt text place} = {place | StarvesAt 0 tokens place} := Set.ext stuck
  have settles := settles_ofTokens tokens
  generalize ofTokens tokens = outcome at settles
  cases settles with
  | @starved place token first stands =>
    rw [← places] at first
    have spelled := Token.ofChar?_of_read read (List.mem_of_getElem? stands)
    have there := (getElem?_of_read read spelled).mpr stands
    cases token with
    | opening | closing => exact Or.inr ⟨_, .group supported first there (by decide), rfl⟩
    | star | concat | union => exact Or.inr ⟨_, .short supported first there (by decide), rfl⟩
    | literal symbol =>
      obtain ⟨other, same, starved⟩ := (stuck place).mp first.1
      cases same.symm.trans stands
      cases starved
  | nothing nothing =>
    refine Or.inr ⟨_, .empty ?_, rfl⟩
    rw [← Token.text_of_read read, nothing]
    rfl
  | dangling sated weight many =>
    have height := (height_of_read read).trans weight
    have fed (place : Nat) : ¬StuckAt text place := mt (stuck place).mp (sated place)
    exact Or.inr ⟨_, .dangling supported fed height many, rfl⟩
  | built nfa sated weight =>
    have height := (height_of_read read).trans weight
    have fed (place : Nat) : ¬StuckAt text place := mt (stuck place).mp (sated place)
    exact Or.inl ⟨⟨supported, fed, height⟩, nfa, rfl⟩

theorem outcome_of_text (text : List Char) :
    (Sound text ∧ ∃ nfa, ofPostorder text = .ok nfa) ∨
      ∃ report, Cause text report ∧ ofPostorder text = .error report := by
  rcases read_settles text with ⟨supported, tokens, read⟩ | ⟨symbol, position, foreign, failed⟩
  · rw [ofPostorder, read]
    exact outcome_of_read read supported
  · rw [ofPostorder, failed]
    exact Or.inr ⟨_, .foreign foreign, rfl⟩

theorem ofPostorder_eq_error_iff {text : List Char} {report : Malformed} :
    ofPostorder text = .error report ↔ Cause text report := by
  rcases outcome_of_text text with ⟨sound, nfa, made⟩ | ⟨found, cause, failed⟩
  · rw [made]
    exact iff_of_false (by simp) fun cause => not_sound_of_cause cause sound
  · rw [failed]
    constructor
    · intro same
      exact Except.error.inj same ▸ cause
    · intro again
      rw [cause_unique cause again]

theorem ofPostorder_eq_ok_iff {text : List Char} :
    (∃ nfa, ofPostorder text = .ok nfa) ↔ Sound text := by
  rcases outcome_of_text text with ⟨sound, made⟩ | ⟨found, cause, failed⟩
  · exact iff_of_true made sound
  · rw [failed]
    exact iff_of_false (by simp) (not_sound_of_cause cause)

/-- A text in postorder makes an automaton or is reported, and the causes are looked for in this
order: a foreign character anywhere, the first one; a parenthesis, or an operator that is short of
operands, whichever comes first; nothing at all; more operands than one at the end. -/
theorem ofPostorder_outcome (text : List Char) :
    (∀ symbol position, ofPostorder text = .error (.unsupportedCharacter symbol position) ↔
      ForeignAt text symbol position) ∧
    (∀ position, ofPostorder text = .error (.unbalancedParenthesis position) ↔
      Supported text ∧ IsLeast {place | StuckAt text place} position ∧
        ∃ parenthesis ∈ ['(', ')'], text[position]? = some parenthesis) ∧
    (∀ operator position, ofPostorder text = .error (.missingOperand operator position) ↔
      Supported text ∧ IsLeast {place | StuckAt text place} position ∧
        text[position]? = some operator ∧ operator ∉ ['(', ')']) ∧
    (ofPostorder text = .error .emptyExpression ↔ text = []) ∧
    (∀ count, ofPostorder text = .error (.danglingOperands count) ↔
      Supported text ∧ (∀ place, ¬StuckAt text place) ∧ height text = count ∧ 1 < count) ∧
    ((∃ nfa, ofPostorder text = .ok nfa) ↔
      Supported text ∧ (∀ place, ¬StuckAt text place) ∧ height text = 1) := by
  simp only [ofPostorder_eq_error_iff, ofPostorder_eq_ok_iff]
  refine ⟨fun symbol position => ⟨fun cause => ?_, Cause.foreign⟩,
    fun position => ⟨fun cause => ?_, ?_⟩, fun operator position => ⟨fun cause => ?_, ?_⟩,
    ⟨fun cause => ?_, Cause.empty⟩, fun count => ⟨fun cause => ?_, ?_⟩, ?_⟩
  · cases cause with
    | foreign foreign => exact foreign
  · cases cause with
    | group supported first stands parenthesis => exact ⟨supported, first, _, parenthesis, stands⟩
  · rintro ⟨supported, first, _, parenthesis, stands⟩
    exact .group supported first stands parenthesis
  · cases cause with
    | short supported first stands apart => exact ⟨supported, first, stands, apart⟩
  · rintro ⟨supported, first, stands, apart⟩
    exact .short supported first stands apart
  · cases cause with
    | empty empty => exact empty
  · cases cause with
    | dangling supported sated full many => exact ⟨supported, sated, full, many⟩
  · rintro ⟨supported, sated, full, many⟩
    exact .dangling supported sated full many
  · exact ⟨fun ⟨supported, sated, full⟩ => ⟨supported, sated, full⟩,
      fun ⟨supported, sated, full⟩ => ⟨supported, sated, full⟩⟩

/-- The foreign character is reported, though a star before it is short of its operand. -/
example : ofPostorder ['*', '#'] = .error (.unsupportedCharacter '#' 1) := rfl

end Recognizer.Nfa
