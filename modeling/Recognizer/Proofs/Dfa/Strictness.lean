import Mathlib.Order.Bounds.Defs
import Recognizer.Compile
import Recognizer.Proofs.Dfa.Provenance

/-!
The strict check beside the plain one. The strict check looks for symbols outside the alphabet
before it walks, the plain one walks at once. They agree because exploration makes no edge on such a
symbol, so a walk that meets one stops there and rejects, as does a walk that stops before it.
-/

namespace Recognizer.Dfa

def foreignPlaces (dfa : Dfa) (word : List Char) : Set Nat :=
  {place | ∃ symbol, word[place]? = some symbol ∧ symbol ∉ dfa.automaton.alphabet}

variable {dfa : Dfa} {word : List Char} {symbol : Char} {position : Nat}

theorem foreign?_eq_none_iff :
    dfa.foreign? word = none ↔ ∀ symbol ∈ word, symbol ∈ dfa.automaton.alphabet := by
  unfold foreign?
  rw [List.find?_eq_none]
  constructor
  · intro missed symbol member
    obtain ⟨place, stands⟩ := List.mem_iff_getElem?.mp member
    have familiar := missed (symbol, place) (List.mk_mem_zipIdx_iff_getElem?.mpr stands)
    simpa using familiar
  · intro known entry member
    have inside := known entry.1 (List.fst_mem_of_mem_zipIdx member)
    simpa using inside

theorem isLeast_of_foreign? (found : dfa.foreign? word = some (symbol, position)) :
    word[position]? = some symbol ∧ IsLeast (dfa.foreignPlaces word) position := by
  obtain ⟨outside, place, below, same, before⟩ := List.find?_eq_some_iff_getElem.mp found
  rw [List.getElem_zipIdx, Nat.zero_add, Prod.mk.injEq] at same
  obtain ⟨rfl, rfl⟩ := same
  have stands := List.getElem?_eq_getElem (l := word) (by simpa using below)
  refine ⟨stands, ⟨_, stands, of_decide_eq_true outside⟩, ?_⟩
  rintro other ⟨foreign, there, unknown⟩
  by_contra later
  -- the search passed that place, so the symbol there is familiar
  have familiar := before other (Nat.lt_of_not_le later)
  rw [List.getElem_zipIdx, (List.getElem?_eq_some_iff.mp there).2] at familiar
  simp [unknown] at familiar

/-- No walk reads a symbol outside the alphabet, wherever in the word it stands. -/
theorem check_of_foreign (valid : dfa.automaton.Valid)
    (foreign : position ∈ dfa.foreignPlaces word) : dfa.check word = false := by
  obtain ⟨symbol, stands, unknown⟩ := foreign
  rw [← Bool.not_eq_true, check, Automaton.check_iff]
  rintro ⟨final, _, walked⟩
  exact unknown (valid.symbols_of_walk walked symbol (List.mem_of_getElem? stands))

theorem checkStrictly_of_familiar (known : ∀ symbol ∈ word, symbol ∈ dfa.automaton.alphabet) :
    dfa.checkStrictly word = .ok (dfa.check word) := by
  rw [checkStrictly, foreign?_eq_none_iff.mpr known]

theorem checkStrictly_of_foreign (foreign : ∃ symbol ∈ word, symbol ∉ dfa.automaton.alphabet) :
    ∃ symbol position, word[position]? = some symbol ∧ IsLeast (dfa.foreignPlaces word) position ∧
      dfa.checkStrictly word = .error (.unrecognizedSymbol symbol position) := by
  cases found : dfa.foreign? word with
  | none =>
    obtain ⟨symbol, member, unknown⟩ := foreign
    exact absurd (foreign?_eq_none_iff.mp found symbol member) unknown
  | some entry =>
    obtain ⟨symbol, position⟩ := entry
    obtain ⟨stands, least⟩ := isLeast_of_foreign? found
    refine ⟨symbol, position, stands, least, ?_⟩
    rw [checkStrictly, found]

/-- Both checks of a word agree when its symbols are in the alphabet. Otherwise the strict one
reports the first that is not, and the plain one rejects the word. -/
theorem checkStrictly_determinize (source : Automaton) (word : List Char) :
    ((∀ symbol ∈ word, symbol ∈ (determinize source).automaton.alphabet) →
      (determinize source).checkStrictly word = .ok ((determinize source).check word)) ∧
      ((∃ symbol ∈ word, symbol ∉ (determinize source).automaton.alphabet) →
        ∃ symbol position, word[position]? = some symbol ∧
          IsLeast ((determinize source).foreignPlaces word) position ∧
          (determinize source).checkStrictly word = .error (.unrecognizedSymbol symbol position) ∧
          (determinize source).check word = false) := by
  refine ⟨checkStrictly_of_familiar, ?_⟩
  intro foreign
  obtain ⟨symbol, position, stands, least, reported⟩ := checkStrictly_of_foreign foreign
  have rejected := check_of_foreign (valid_determinize source) least.1
  exact ⟨symbol, position, stands, least, reported, rejected⟩

/-- The shortest way to the final state reads a symbol that is not in the alphabet. -/
def undeclared : Automaton where
  states := OrderedSet.ofList [0, 1, 2]
  alphabet := OrderedSet.ofList ['a']
  transitions := OrderedTable.ofEntries
    [(0, [.reading 'x' 2, .reading 'a' 1]), (1, [.reading 'a' 2]), (2, [.silent 2])]
  start := 0
  finals := OrderedSet.ofList [2]

/-- The walk is lost at the third symbol, the foreign one follows. -/
theorem checkStrictly_determinize_undeclared :
    (∀ symbol ∈ ['a', 'a'], symbol ∈ (determinize undeclared).automaton.alphabet) ∧
      (determinize undeclared).checkStrictly ['a', 'a'] =
        .ok ((determinize undeclared).check ['a', 'a']) ∧
      (∃ symbol ∈ ['a', 'a', 'a', 'x'], symbol ∉ (determinize undeclared).automaton.alphabet) ∧
      ∃ symbol position, ['a', 'a', 'a', 'x'][position]? = some symbol ∧
        IsLeast ((determinize undeclared).foreignPlaces ['a', 'a', 'a', 'x']) position ∧
        (determinize undeclared).checkStrictly ['a', 'a', 'a', 'x'] =
          .error (.unrecognizedSymbol symbol position) ∧
        (determinize undeclared).check ['a', 'a', 'a', 'x'] = false := by
  have declared : 'a' ∈ undeclared.alphabet := by decide
  have known : ∀ symbol ∈ ['a', 'a'], symbol ∈ undeclared.alphabet := by simp [declared]
  have foreign : ∃ symbol ∈ ['a', 'a', 'a', 'x'], symbol ∉ undeclared.alphabet :=
    ⟨'x', by simp, by decide⟩
  exact ⟨known, (checkStrictly_determinize undeclared ['a', 'a']).1 known, foreign,
    (checkStrictly_determinize undeclared ['a', 'a', 'a', 'x']).2 foreign⟩

/-- The edge on the foreign symbol is not explored. -/
example : undeclared.accepts ['x'] = true ∧ (determinize undeclared).check ['x'] = false := by
  decide +kernel

end Recognizer.Dfa
