import Recognizer.Yaml.Scan

/-!
Words of letters, digits and points in a document. No such character means anything to the scanner
outside the first column, so a word is one plain scalar, as it is spelled, up to a colon or to the
end of its line.
-/

namespace Recognizer.Yaml

def isPlain (character : Char) : Bool := character.isAlphanum || character = '.'

section Characters

variable {character : Char}

theorem toNat_lt_of_isPlain (plain : isPlain character = true) : character.toNat < 128 := by
  delta isPlain Char.isAlphanum Char.isAlpha Char.isUpper Char.isLower Char.isDigit at plain
  simp only [Bool.or_eq_true, Bool.and_eq_true, decide_eq_true_eq, UInt32.le_iff_toNat_le] at plain
  have size : character.toNat = character.val.toNat := rfl
  have upperEnd : 'Z'.val.toNat = 90 := rfl
  have lowerEnd : 'z'.val.toNat = 122 := rfl
  have digitEnd : '9'.val.toNat = 57 := rfl
  rcases plain with ((upper | lower) | digit) | point
  · omega
  · omega
  · omega
  · rw [point]
    decide

/-- Plain characters are in ASCII, so what holds of all of them is found by trying. -/
theorem forall_plain (holds : Char → Bool)
    (tried : ∀ code < 128, isPlain (Char.ofNat code) = true → holds (Char.ofNat code) = true)
    (plain : isPlain character = true) : holds character = true := by
  have found := tried character.toNat (toNat_lt_of_isPlain plain)
  rw [Char.ofNat_toNat] at found
  exact found plain

theorem isAllowed_of_isPlain (plain : isPlain character = true) : isAllowed character = true :=
  forall_plain isAllowed (by decide +kernel) plain

theorem ne_of_isPlain {other : Char} (plain : isPlain character = true)
    (special : isPlain other = false) : character ≠ other := by
  intro same
  rw [same, special] at plain
  cases plain

theorem not_isBlank_of_isPlain (plain : isPlain character = true) : isBlank character = false := by
  have apart := forall_plain (fun other => !isBlank other) (by decide +kernel) plain
  simpa using apart

theorem not_isBreak_of_isPlain (plain : isPlain character = true) : isBreak character = false := by
  have apart := forall_plain (fun other => !isBreak other) (by decide +kernel) plain
  simpa using apart

/-- The characters that begin something else than a plain scalar, some of them not always. -/
def indicators : List Char :=
  ['-', '?', ':', ',', '[', ']', '\x7b', '\x7d', '#', '&', '*', '!', '|', '>', '\'', '"', '%',
    '@', '`']

theorem ne_indicator (plain : isPlain character = true) :
    ∀ indicator ∈ indicators, character ≠ indicator := by
  have special : indicators.any isPlain = false := by decide +kernel
  intro indicator member
  apply ne_of_isPlain plain
  simpa using List.any_eq_false.mp special indicator member

/-- A plain character takes one byte and one column. -/
theorem spotsFrom_cons (plain : isPlain character = true) (offset line column : Nat)
    (rest : List Char) :
    spotsFrom offset line column (character :: rest) =
      ⟨character, offset, line, column⟩ :: spotsFrom (offset + 1) line (column + 1) rest := by
  have size : character.utf8Size = 1 := by
    have single := forall_plain (·.utf8Size = 1) (by decide +kernel) plain
    simpa using single
  have feed : character ≠ '\n' := ne_of_isPlain plain rfl
  have carriage : character ≠ '\r' := ne_of_isPlain plain rfl
  have control : character ≠ '\x85' := ne_of_isPlain plain rfl
  have inside := not_isBreak_of_isPlain plain
  simp only [isBreak, Bool.or_eq_false_iff] at inside
  rw [spotsFrom.eq_def]
  split
  case h_1 => contradiction
  case h_2 same => exact absurd (List.cons.inj same).1 carriage
  case h_3 same =>
    cases same
    simp [feed, carriage, control, inside.2, size]

end Characters

structure Spells (word : List Spot) (text : List Char) (column : Nat) : Prop where
  chars : chars word = text
  plain : ∀ spot ∈ word, isPlain spot.char = true
  inside : ∀ spot ∈ word, column ≤ spot.column

theorem Spells.nil_iff {word : List Spot} {text : List Char} {column : Nat}
    (spells : Spells word text column) : word = [] ↔ text = [] := by
  have same := spells.chars
  rw [← same]
  exact List.map_eq_nil_iff.symm

theorem exists_spells {text : List Char} (plain : ∀ character ∈ text, isPlain character = true)
    (offset line column : Nat) (rest : List Char) :
    ∃ word, Spells word text column ∧ spotsFrom offset line column (text ++ rest) =
      word ++ spotsFrom (offset + text.length) line (column + text.length) rest := by
  induction text generalizing offset column with
  | nil => exact ⟨[], ⟨rfl, List.forall_mem_nil _, List.forall_mem_nil _⟩, rfl⟩
  | cons character text ih =>
    obtain ⟨head, tail⟩ := List.forall_mem_cons.mp plain
    obtain ⟨word, spells, same⟩ := ih tail (offset + 1) (column + 1)
    refine ⟨⟨character, offset, line, column⟩ :: word, ⟨?_, ?_, ?_⟩, ?_⟩
    · exact congrArg (character :: ·) spells.chars
    · exact List.forall_mem_cons.mpr ⟨head, spells.plain⟩
    · refine List.forall_mem_cons.mpr ⟨Nat.le_refl column, fun spot member => ?_⟩
      exact Nat.le_of_succ_le (spells.inside spot member)
    · rw [List.cons_append, spotsFrom_cons head, same]
      simp [Nat.add_comm, Nat.add_left_comm]

/-- A document marker stands at the start of a line. -/
theorem unmarked_of_column {spot : Spot} (inside : spot.column ≠ 0) (rest : List Spot) :
    startsAnyMarker (spot :: rest) = false := by
  have apart (mark : Char) : startsMarker mark (spot :: rest) = false := by
    unfold startsMarker
    split
    · next same =>
      cases same
      simp [inside]
    · rfl
  simp [startsAnyMarker, apart]

namespace Plain

variable {word after rest : List Spot}

/-- A word goes on to where another one would be empty. -/
theorem word?_append (plain : ∀ spot ∈ word, isPlain spot.char = true)
    (stops : word? false after = some ([], after)) :
    word? false (word ++ after) = some (chars word, after) := by
  induction word with
  | nil => exact stops
  | cons spot word ih =>
    obtain ⟨head, tail⟩ := List.forall_mem_cons.mp plain
    have colon : spot.char ≠ ':' := ne_of_isPlain head rfl
    rw [List.cons_append, word?, ih tail]
    simp [not_isBlank_of_isPlain head, not_isBreak_of_isPlain head, colon, chars]

theorem words?_stop (depth steps : Nat) (gap : Gap)
    (stops : word? false rest = some ([], rest)) :
    words? false depth steps gap rest = some ⟨[], gap.isBroken, rest⟩ := by
  cases steps with
  | zero => rfl
  | succ steps =>
    rw [words?, stops]
    split <;> rfl

/-- A scalar of one word: no other follows the gap behind it. -/
theorem read?_word {depth : Nat} {gap : Gap} (filled : word ≠ [])
    (plain : ∀ spot ∈ word, isPlain spot.char = true)
    (unmarked : startsAnyMarker (word ++ after) = false)
    (stops : word? false after = some ([], after))
    (gaps : Gap.read? (fun spot => spot.char = '\t' && spot.column < depth) after =
      some (gap, rest))
    (deep : (gap.isBroken && outdented false depth rest) = false)
    (ended : word? false rest = some ([], rest)) :
    read? false depth (word ++ after) = some ⟨chars word, gap.isBroken, rest⟩ := by
  obtain ⟨spot, others, same⟩ := List.exists_cons_of_ne_nil filled
  subst same
  have sharp : spot.char ≠ '#' := ne_of_isPlain (plain spot List.mem_cons_self) rfl
  have begins : startsWith '#' (spot :: others ++ after) = false := by
    simp [startsWith, sharp]
  rw [read?, List.cons_append, List.length_cons, ← List.cons_append, words?, unmarked, begins,
    word?_append plain stops]
  simp [chars, gaps, deep, words?_stop depth _ gap ended, Gap.text]

end Plain

section Breaks

variable {ends : List Spot}

theorem breaks_spotsFrom (offset line column count : Nat) :
    ∀ spot ∈ spotsFrom offset line column (List.replicate count '\n'), spot.char = '\n' := by
  induction count generalizing offset line column with
  | zero => exact List.forall_mem_nil _
  | succ count ih =>
    have first : spotsFrom offset line column (List.replicate (count + 1) '\n') =
        ⟨'\n', offset, line, column⟩ ::
          spotsFrom (offset + '\n'.utf8Size) (line + 1) 0 (List.replicate count '\n') := by
      rw [List.replicate_succ, spotsFrom.eq_def]
      simp
    rw [first]
    exact List.forall_mem_cons.mpr ⟨rfl, ih _ _ _⟩

/-- Line ends with nothing between them are one gap, up to the end. -/
theorem Gap.read?_breaks (forbidden : Spot → Bool) (breaks : ∀ spot ∈ ends, spot.char = '\n') :
    ∃ gap, Gap.read? forbidden ends = some (gap, []) := by
  have later : ∀ {more : List Spot}, (∀ spot ∈ more, spot.char = '\n') →
      ∃ found, Gap.laterBreaks? forbidden more = some (found, []) := by
    intro more breaks
    induction more with
    | nil => exact ⟨[], rfl⟩
    | cons spot more ih =>
      obtain ⟨head, tail⟩ := List.forall_mem_cons.mp breaks
      obtain ⟨found, same⟩ := ih tail
      refine ⟨'\n' :: found, ?_⟩
      simp [Gap.laterBreaks?, head, isBlank, isBreak, same]
  cases ends with
  | nil => exact ⟨.inline [], rfl⟩
  | cons spot more =>
    obtain ⟨head, tail⟩ := List.forall_mem_cons.mp breaks
    obtain ⟨found, same⟩ := later tail
    refine ⟨.broken ['\n'] found, ?_⟩
    simp [Gap.read?, skipBlanks, head, isBlank, isBreak, same]

theorem Plain.word?_breaks (breaks : ∀ spot ∈ ends, spot.char = '\n') :
    Plain.word? false ends = some ([], ends) := by
  cases ends with
  | nil => rfl
  | cons spot more =>
    have head := breaks spot List.mem_cons_self
    simp [Plain.word?, head, isBreak]

theorem Scan.toNext_breaks (breaks : ∀ spot ∈ ends, spot.char = '\n')
    (allowed : Bool) : ∃ after, toNext false allowed false ends = (after, []) := by
  induction ends generalizing allowed with
  | nil => exact ⟨allowed, rfl⟩
  | cons spot ends ih =>
    obtain ⟨head, tail⟩ := List.forall_mem_cons.mp breaks
    obtain ⟨after, same⟩ := ih tail true
    refine ⟨after, ?_⟩
    simp [toNext, head, isBreak, same]

end Breaks

namespace Scan

theorem toNext_plain {spot : Spot} (plain : isPlain spot.char = true) (inFlow allowed : Bool)
    (rest : List Spot) :
    toNext inFlow allowed false (spot :: rest) = (allowed, spot :: rest) := by
  have space : spot.char ≠ ' ' := ne_of_isPlain plain rfl
  have tab : spot.char ≠ '\t' := ne_of_isPlain plain rfl
  have sharp : spot.char ≠ '#' := ne_of_isPlain plain rfl
  have mark : spot.char ≠ byteOrderMark := ne_of_isPlain plain rfl
  simp [toNext, not_isBreak_of_isPlain plain, space, tab, sharp, mark]

/-- A plain character begins a plain scalar, unless the line begins with a marker. -/
theorem token?_plain (scan : Scan) {spot : Spot} {rest : List Spot}
    (plain : isPlain spot.char = true) (unmarked : startsAnyMarker (spot :: rest) = false) :
    scan.token? spot rest = scan.plain? spot rest := by
  rw [startsAnyMarker, Bool.or_eq_false_iff] at unmarked
  have apart := ne_indicator plain
  simp only [indicators, List.forall_mem_cons] at apart
  have starts : startsPlain scan.inFlow spot rest = true := by
    simp [startsPlain, not_isBlank_of_isPlain plain, apart]
  simp [token?, unmarked, starts, apart]

theorem plain?_eq (scan : Scan) {saved : Scan} {spot : Spot} {rest : List Spot}
    {reading : Plain.Reading}
    (read : Plain.read? scan.inFlow scan.depth (spot :: rest) = some reading)
    (save : scan.saveCandidate? spot = some saved) :
    scan.plain? spot rest =
      some ((saved.emit (.scalar reading.text true)).allowKey reading.broken, reading.rest) := by
  rw [plain?, save, read]

end Scan

end Recognizer.Yaml
