import Recognizer.Proofs.Text
import Recognizer.Proofs.Yaml.Word
import Recognizer.Yaml.Value

/-!
A document of one entry whose value is a word. Scanning it passes through the same states whatever
the word is: the key has been read as a scalar, the colon has made it a key, the value has been
read. So the document is a mapping of one entry, and its value is what the word alone stands for: a
word that stands for a string spells it, and a decimal numeral stands for no whole number but the
one that it writes.
-/

namespace Recognizer.Yaml

/-- The key `regex`, a word on the same line, and lines that hold nothing. -/
def regexEntry (word : List Char) (breaks : Nat) : List Char :=
  "regex: ".toList ++ (word ++ List.replicate breaks '\n')

theorem regexEntry_eq (word : List Char) (breaks : Nat) :
    regexEntry word breaks =
      ['r', 'e', 'g', 'e', 'x', ':', ' '] ++ (word ++ List.replicate breaks '\n') := rfl

def keySpots : List Spot :=
  [⟨'r', 0, 0, 0⟩, ⟨'e', 1, 0, 1⟩, ⟨'g', 2, 0, 2⟩, ⟨'e', 3, 0, 3⟩, ⟨'x', 4, 0, 4⟩]

def keyColon : Spot := ⟨':', 5, 0, 5⟩

def keyBlank : Spot := ⟨' ', 6, 0, 6⟩

theorem spotsFrom_key (text : List Char) :
    spotsFrom 0 0 0 (['r', 'e', 'g', 'e', 'x', ':', ' '] ++ text) =
      keySpots ++ keyColon :: keyBlank :: spotsFrom 7 0 7 text := rfl

theorem spots?_regexEntry {word : List Char} (plain : ∀ character ∈ word, isPlain character = true)
    (breaks : Nat) :
    spots? (regexEntry word breaks) =
      some (keySpots ++ keyColon :: keyBlank ::
        spotsFrom 7 0 7 (word ++ List.replicate breaks '\n')) := by
  have allowed : (regexEntry word breaks).all isAllowed = true := by
    have key : ['r', 'e', 'g', 'e', 'x', ':', ' '].all isAllowed = true := by decide +kernel
    have value : word.all isAllowed = true :=
      List.all_eq_true.mpr fun character member => isAllowed_of_isPlain (plain character member)
    have feeds : (List.replicate breaks '\n').all isAllowed = true := by
      apply List.all_eq_true.mpr
      intro character member
      rw [List.eq_of_mem_replicate member]
      rfl
    rw [regexEntry_eq, List.all_append, List.all_append, key, value, feeds]
    rfl
  rw [spots?, if_pos allowed, regexEntry_eq, spotsFrom_key]

namespace Scan

def named : Scan :=
  { tokens := [.scalar "regex".toList true]
    count := 1
    columns := []
    candidate := some ⟨false, 0, ⟨'r', 0, 0, 0⟩⟩
    outer := []
    keyAllowed := false }

def assigned : Scan :=
  { tokens := [.value, .scalar "regex".toList true, .key, .blockMappingStart]
    count := 4
    columns := [0]
    candidate := none
    outer := []
    keyAllowed := false }

def valued (text : List Char) (allowed : Bool) : Scan :=
  { tokens := [.scalar text true, .value, .scalar "regex".toList true, .key, .blockMappingStart]
    count := 5
    columns := [0]
    candidate := none
    outer := []
    keyAllowed := allowed }

/-- One token is read, where no candidate runs out and the collections around it are closed. -/
theorem run?_step {scan current next : Scan} {spots rest after : List Spot} {allowed : Bool}
    {spot : Spot} (steps : Nat)
    (here : toNext scan.inFlow scan.keyAllowed false spots = (allowed, spot :: rest))
    (kept : (scan.allowKey allowed).expire? spot = some current)
    (read : (current.unrollTo (spot.column + 1)).token? spot rest = some (next, after)) :
    run? (steps + 1) scan spots = run? steps next after := by
  rw [run?, here]
  simp only [kept, read]

theorem read?_key (tail : List Spot) :
    Plain.read? false 0 (keySpots ++ keyColon :: keyBlank :: tail) =
      some ⟨"regex".toList, false, keyColon :: keyBlank :: tail⟩ := by
  have stops : Plain.word? false (keyColon :: keyBlank :: tail) =
      some ([], keyColon :: keyBlank :: tail) := rfl
  have gaps : Gap.read? (fun spot => spot.char = '\t' && spot.column < 0)
      (keyColon :: keyBlank :: tail) = some (.inline [], keyColon :: keyBlank :: tail) := rfl
  exact Plain.read?_word (List.cons_ne_nil _ _) (by decide +kernel) rfl stops gaps rfl stops

theorem run?_named (steps : Nat) (tail : List Spot) :
    run? (steps + 1) initial (keySpots ++ keyColon :: keyBlank :: tail) =
      run? steps named (keyColon :: keyBlank :: tail) := by
  apply run?_step steps rfl rfl
  rw [token?_plain _ rfl rfl]
  exact plain?_eq initial (read?_key tail) rfl

theorem token?_colon (scan : Scan) {spot : Spot} {rest : List Spot} (colon : spot.char = ':')
    (ends : endsWord rest = true) (unmarked : startsAnyMarker (spot :: rest) = false) :
    scan.token? spot rest = scan.value? spot rest := by
  rw [startsAnyMarker, Bool.or_eq_false_iff] at unmarked
  simp [token?, unmarked, colon, ends]

theorem run?_assigned (steps : Nat) (tail : List Spot) :
    run? (steps + 1) named (keyColon :: keyBlank :: tail) =
      run? steps assigned (keyBlank :: tail) := by
  apply run?_step steps rfl rfl
  rw [token?_colon _ rfl rfl (unmarked_of_column (Nat.succ_ne_zero 4) _)]
  rfl

theorem read?_value {word ends : List Spot} {text : List Char} (spells : Spells word text 7)
    (filled : word ≠ []) (unmarked : startsAnyMarker (word ++ ends) = false)
    (breaks : ∀ spot ∈ ends, spot.char = '\n') :
    ∃ broken, Plain.read? false 1 (word ++ ends) = some ⟨text, broken, []⟩ := by
  obtain ⟨gap, gaps⟩ := Gap.read?_breaks (fun spot => spot.char = '\t' && spot.column < 1) breaks
  have deep : (gap.isBroken && Plain.outdented false 1 []) = false := Bool.and_false _
  refine ⟨gap.isBroken, ?_⟩
  rw [← spells.chars]
  exact Plain.read?_word filled spells.plain unmarked (Plain.word?_breaks breaks) gaps deep rfl

theorem run?_valued (steps : Nat) {word ends : List Spot} {text : List Char}
    (spells : Spells word text 7) (filled : word ≠ [])
    (breaks : ∀ spot ∈ ends, spot.char = '\n') :
    ∃ allowed, run? (steps + 1) assigned (keyBlank :: (word ++ ends)) =
      run? steps (valued text allowed) [] := by
  obtain ⟨first, others, same⟩ := List.exists_cons_of_ne_nil filled
  have plain : isPlain first.char = true := spells.plain first (by simp [same])
  have unmarked : startsAnyMarker (word ++ ends) = false := by
    have bound := spells.inside first (by simp [same])
    rw [same]
    exact unmarked_of_column (by omega) _
  obtain ⟨broken, read⟩ := read?_value spells filled unmarked breaks
  rw [same, List.cons_append] at unmarked read ⊢
  have token : assigned.token? first (others ++ ends) = some (valued text broken, []) := by
    rw [token?_plain assigned plain unmarked]
    exact plain?_eq assigned read rfl
  exact ⟨broken, run?_step steps (toNext_plain plain false false _) rfl token⟩

theorem run?_finished (steps : Nat) (text : List Char) (allowed : Bool) :
    run? (steps + 1) (valued text allowed) [] =
      some [.blockMappingStart, .key, .scalar "regex".toList true, .value, .scalar text true,
        .blockEnd] := rfl

theorem run?_bare (steps : Nat) {ends : List Spot} (breaks : ∀ spot ∈ ends, spot.char = '\n') :
    run? (steps + 1) assigned (keyBlank :: ends) =
      some [.blockMappingStart, .key, .scalar "regex".toList true, .value, .blockEnd] := by
  obtain ⟨after, same⟩ := toNext_breaks breaks false
  have skipped : toNext assigned.inFlow assigned.keyAllowed false (keyBlank :: ends) =
      (after, []) := same
  rw [run?, skipped]
  rfl

end Scan

def entryTokens (word : List Char) : List Token :=
  .blockMappingStart :: .key :: .scalar "regex".toList true :: .value ::
    (if word = [] then [.blockEnd] else [.scalar word true, .blockEnd])

theorem scan?_regexEntry {word : List Char} (plain : ∀ character ∈ word, isPlain character = true)
    (breaks : Nat) : Token.scan? (regexEntry word breaks) = some (entryTokens word) := by
  obtain ⟨spots, spells, spelled⟩ := exists_spells plain 7 0 7 (List.replicate breaks '\n')
  have feeds := breaks_spotsFrom (7 + word.length) 0 (7 + word.length) breaks
  rw [Token.scan?, spots?_regexEntry plain, spelled]
  generalize spotsFrom _ 0 _ (List.replicate breaks '\n') = ends at feeds
  have steps : (keySpots ++ keyColon :: keyBlank :: (spots ++ ends)).length + 1 =
      (spots ++ ends).length + 4 + 1 + 1 + 1 + 1 := rfl
  simp only [steps, Scan.run?_named, Scan.run?_assigned]
  by_cases empty : word = []
  · rw [spells.nil_iff.mpr empty, List.nil_append, entryTokens, if_pos empty]
    exact Scan.run?_bare _ feeds
  · have filled : spots ≠ [] := mt spells.nil_iff.mp empty
    obtain ⟨allowed, run⟩ := Scan.run?_valued _ spells filled feeds
    rw [run, entryTokens, if_neg empty]
    exact Scan.run?_finished _ word allowed

def entryDocument (word : List Char) : Document where
  root := some (.mapping none [(.scalar none true "regex".toList, .scalar none true word)])
  anchored := []
  events := 4

theorem read?_regexEntry {word : List Char} (plain : ∀ character ∈ word, isPlain character = true)
    (breaks : Nat) : Document.read? (regexEntry word breaks) = some (entryDocument word) := by
  rw [Document.read?, scan?_regexEntry plain]
  by_cases empty : word = []
  · rw [entryTokens, if_pos empty, empty]
    rfl
  · rw [entryTokens, if_neg empty]
    rfl

theorem value_plain (document : Document) (depth left : Nat) (text : List Char) :
    (document.value depth (.scalar none true text)).run left =
      (Value.ofPlain? text).map (·, left) := by
  cases depth <;> cases value : Value.ofPlain? text <;>
    simp [Document.value, Document.follow, Value.ofScalar?, Value.ofStyle?, value]

theorem entries?_entryDocument (word : List Char) :
    (entryDocument word).entries? =
      (Value.ofPlain? word).map fun value => [("regex", value)] := by
  simp only [Document.entries?, Document.entriesOf, entryDocument]
  cases value : Value.ofPlain? word <;>
    simp [Document.key, Document.follow, value_plain, value, OrderedTable.putEntry]

section Scalars

/-- What a plain scalar stands for: nothing, a truth value, an integer that fits, another number or
the string that it spells. -/
theorem Value.ofPlain?_cases {text : List Char} {value : Value Number}
    (spelled : Value.ofPlain? text = some value) :
    value = .null ∨ (∃ truth, value = .bool truth) ∨
      (∃ integer number, Number.integer? text = some integer ∧
        Number.ofInteger? integer = some number ∧ value = .number number) ∨
      (∃ real, value = .number (.real real)) ∨ value = .string (String.ofList text) := by
  unfold Value.ofPlain? at spelled
  split at spelled
  · exact Or.inl (Option.some.inj spelled).symm
  · split at spelled
    · next truth _ => exact Or.inr (Or.inl ⟨truth, (Option.some.inj spelled).symm⟩)
    · split at spelled
      · next integer found =>
        obtain ⟨number, fits, same⟩ := Option.map_eq_some_iff.mp spelled
        exact Or.inr (Or.inr (Or.inl ⟨integer, number, found, fits, same.symm⟩))
      · split at spelled
        · next real _ =>
          exact Or.inr (Or.inr (Or.inr (Or.inl ⟨real, (Option.some.inj spelled).symm⟩)))
        · exact Or.inr (Or.inr (Or.inr (Or.inr (Option.some.inj spelled).symm)))

/-- A plain scalar that is a string is the string that it spells. -/
theorem string_of_ofPlain? {word : List Char} {text : String}
    (spelled : Value.ofPlain? word = some (.string text)) : text = String.ofList word := by
  rcases Value.ofPlain?_cases spelled with null | ⟨_, bool⟩ | ⟨_, _, _, _, number⟩ | ⟨_, real⟩ |
    string
  · cases null
  · cases bool
  · cases number
  · cases real
  · exact Value.string.inj string

theorem digit?_of_isDigit {character : Char} (digit : character.isDigit = true) :
    digit? 10 character = some (character.toNat - '0'.toNat) := by
  have shown : ∀ value < 10, digit? 10 (Nat.digitChar value) = some value := by decide
  obtain ⟨value, small, rfl, read⟩ := Text.exists_digit_of_isDigit digit
  rw [read, shown value small]

theorem mapM_digit? {text : List Char}
    (digits : ∀ character ∈ text, character.isDigit = true) :
    text.mapM (digit? 10) = some (text.map fun character => character.toNat - '0'.toNat) := by
  induction text with
  | nil => rfl
  | cons character rest ih =>
    obtain ⟨head, tail⟩ := List.forall_mem_cons.mp digits
    rw [List.mapM_cons, digit?_of_isDigit head, ih tail]
    rfl

/-- A decimal numeral is read as the number that it writes. -/
theorem natural?_toDigits (value : Nat) : natural? 10 (Nat.toDigits 10 value) = some value := by
  have digits : ∀ character ∈ Nat.toDigits 10 value, character.isDigit = true :=
    fun _ => Nat.isDigit_of_mem_toDigits (by decide) (by decide)
  have folded : ofDigits 10 ((Nat.toDigits 10 value).map fun character =>
      character.toNat - '0'.toNat) = Nat.ofDigitChars 10 (Nat.toDigits 10 value) 0 := by
    rw [ofDigits, List.foldl_map, Nat.ofDigitChars_eq_foldl]
    simp only [Nat.mul_comm]
  rw [natural?, if_neg Nat.toDigits_ne_nil, mapM_digit? digits, Option.map_some, folded,
    Nat.ofDigitChars_ten_toDigits]

namespace Number

theorem eq_of_ofInteger? {integer : Int} {value : Nat}
    (fits : ofInteger? integer = some (.natural value)) : integer = Int.ofNat value := by
  unfold ofInteger? at fits
  split at fits
  · next positive =>
    split at fits
    · cases fits
      exact (Int.toNat_of_nonneg positive).symm
    · cases fits
  · split at fits <;> cases fits

theorem integer?_of_natural {text : List Char} {value : Nat}
    (spelled : Value.ofPlain? text = some (.number (.natural value))) :
    integer? text = some (Int.ofNat value) := by
  rcases Value.ofPlain?_cases spelled with null | ⟨_, bool⟩ | ⟨integer, number, found, fits, same⟩ |
    ⟨_, real⟩ | string
  · cases null
  · cases bool
  · cases same
    rw [found, eq_of_ofInteger? fits]
  · cases real
  · cases string

theorem natural?_of_integer? {text : List Char} {value : Nat}
    (digits : ∀ character ∈ text, character.isDigit = true)
    (spelled : integer? text = some (Int.ofNat value)) :
    natural? 10 text = some value := by
  unfold integer? at spelled
  split at spelled
  · exact absurd (digits '-' List.mem_cons_self) (by decide)
  · exact absurd (digits '+' List.mem_cons_self) (by decide)
  · obtain ⟨number, kept, same⟩ := Option.map_eq_some_iff.mp spelled
    cases same
    have found := (Option.filter_eq_some_iff.mp kept).1
    unfold magnitude? at found
    split at found
    · exact absurd (digits 'x' (by simp)) (by decide)
    · exact absurd (digits 'o' (by simp)) (by decide)
    · exact absurd (digits 'b' (by simp)) (by decide)
    · split at found
      · cases found
      · exact found

/-- Whatever else a numeral may resolve to, the only whole number is the one that it writes. -/
theorem eq_of_toDigits {value other : Nat}
    (spelled : Value.ofPlain? (Nat.toDigits 10 value) = some (.number (.natural other))) :
    other = value := by
  have digits : ∀ character ∈ Nat.toDigits 10 value, character.isDigit = true :=
    fun _ => Nat.isDigit_of_mem_toDigits (by decide) (by decide)
  have found := natural?_of_integer? digits (integer?_of_natural spelled)
  rw [natural?_toDigits] at found
  exact (Option.some.inj found).symm

end Number

end Scalars

end Recognizer.Yaml
