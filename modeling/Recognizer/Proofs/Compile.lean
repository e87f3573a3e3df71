import Recognizer.Compile
import Recognizer.Proofs.Dfa.Provenance
import Recognizer.Proofs.Dfa.Exactness
import Recognizer.Proofs.Nfa.Language
import Recognizer.Proofs.Pattern.Derivation

/-!
Compilation from a pattern to its deterministic automaton. The examinations on the way never fail,
so the result depends on the pattern's tokens alone.
-/

namespace Recognizer

open Pattern

theorem ofPattern_eq_bind (pattern : List Char) :
    Nfa.ofPattern pattern = (Pattern.postorder pattern).bind Nfa.ofTokens := rfl

theorem ofTokens_of_ofPattern {pattern : List Char} {nfa : Automaton}
    (built : Nfa.ofPattern pattern = .ok nfa) : ∃ tokens, Nfa.ofTokens tokens = .ok nfa := by
  rw [ofPattern_eq_bind] at built
  cases listed : Pattern.postorder pattern with
  | error malformed =>
    rw [listed] at built
    cases built
  | ok tokens =>
    rw [listed] at built
    exact ⟨tokens, built⟩

theorem valid_ofPattern {pattern : List Char} {nfa : Automaton}
    (built : Nfa.ofPattern pattern = .ok nfa) : nfa.Valid := by
  obtain ⟨tokens, made⟩ := ofTokens_of_ofPattern built
  exact Nfa.valid_ofTokens made

/-- Neither automaton fails an examination, so only a malformed pattern is not compiled. -/
theorem compile_eq (pattern : List Char) :
    compile pattern =
      ((Nfa.ofPattern pattern).mapError Fault.malformed).map Dfa.determinize := by
  unfold compile
  cases built : Nfa.ofPattern pattern with
  | error malformed => rfl
  | ok nfa =>
    have sound : nfa.validated = .ok () := by
      rw [Automaton.validated, Automaton.validate_ok_iff.mpr (valid_ofPattern built)]
      rfl
    have valid : (Dfa.determinize nfa).automaton.validated = .ok () := by
      rw [Automaton.validated, Automaton.validate_ok_iff.mpr (Dfa.valid_determinize nfa)]
      rfl
    have deterministic : (Dfa.determinize nfa).automaton.deterministic = .ok () := by
      rw [Automaton.deterministic,
        Automaton.checkDeterminism_ok_iff.mpr (Dfa.deterministic_determinize nfa)]
      rfl
    change (nfa.validated.bind fun _ => (Dfa.determinize nfa).automaton.validated.bind fun _ =>
      (Dfa.determinize nfa).automaton.deterministic.bind fun _ => .ok (Dfa.determinize nfa)) = _
    -- all three examinations pass, one after another
    rw [sound, valid, deterministic]
    rfl

theorem compile_of_postorder {pattern : List Char} {tree : Tree}
    (listed : Pattern.postorder pattern = .ok tree.postorder) :
    ∃ dfa, compile pattern = .ok dfa ∧ ∀ word, dfa.check word = true ↔ tree.Matches word := by
  obtain ⟨nfa, built, language⟩ := Nfa.ofTokens_postorder tree
  have made : Nfa.ofPattern pattern = .ok nfa := by
    rw [Nfa.ofPattern, listed]
    exact built
  refine ⟨Dfa.determinize nfa, ?_, fun word => ?_⟩
  · rw [compile_eq, made]
    rfl
  · rw [Dfa.check_ofTokens built]
    exact language word

/-- A pattern of the grammar is compiled, and its automaton accepts the words that the tree of the
pattern matches. -/
theorem compile_of_derives {tokens : List Token} {tree : Tree}
    (derived : Derives .union tokens tree) :
    ∃ dfa, compile (Token.text tokens) = .ok dfa ∧
      ∀ word, dfa.check word = true ↔ tree.Matches word :=
  compile_of_postorder (postorder_text_of_derives derived)

theorem compile_of_derives_starred :
    ∃ dfa, compile ['(', 'a', '|', 'b', ')', '*', 'c'] = .ok dfa ∧
      ∀ word, dfa.check word = true ↔
        (Tree.concat (.star (.union (.literal 'a') (.literal 'b'))) (.literal 'c')).Matches
          word := by
  have letter (symbol : Char) (known : symbol.isAlphanum = true) :
      Derives .factor [.literal symbol] (.literal symbol) := .atom (.literal known)
  have choice : Derives .union [.literal 'a', .union, .literal 'b'] _ :=
    .union (.concat (.factor (letter 'a' rfl))) (.factor (letter 'b' rfl))
  have starred := Derives.star (.atom (.group choice))
  exact compile_of_derives (.concat (.beside (.factor starred) (letter 'c' rfl)))

theorem ofPattern_of_compile {pattern : List Char} {dfa : Dfa}
    (compiled : compile pattern = .ok dfa) :
    ∃ nfa, Nfa.ofPattern pattern = .ok nfa ∧ Dfa.determinize nfa = dfa := by
  rw [compile_eq] at compiled
  cases built : Nfa.ofPattern pattern with
  | error malformed =>
    rw [built] at compiled
    cases compiled
  | ok nfa =>
    rw [built] at compiled
    exact ⟨nfa, rfl, Except.ok.inj compiled⟩

/-- A compiled automaton has no useless state: a word leads to each of them, and from each a word
leads to a final state. So a word is read to its end exactly when an accepted word begins with it,
and the first missing edge rejects no sooner and no later than it can. -/
theorem compile_useful {pattern : List Char} {dfa : Dfa} (compiled : compile pattern = .ok dfa) :
    (∀ state ∈ dfa.automaton.states,
      (∃ word, dfa.automaton.walk dfa.automaton.start word = some state) ∧
        ∃ word, ∃ final ∈ dfa.automaton.finals, dfa.automaton.walk state word = some final) ∧
      ∀ word, (∃ state, dfa.automaton.walk dfa.automaton.start word = some state) ↔
        ∃ extension, dfa.check (word ++ extension) = true := by
  obtain ⟨nfa, built, same⟩ := ofPattern_of_compile compiled
  subst same
  obtain ⟨tokens, made⟩ := ofTokens_of_ofPattern built
  have valid := Nfa.valid_ofTokens made
  have completed := Nfa.completed_ofTokens made
  constructor
  · intro state member
    obtain ⟨subset, stands⟩ := Dfa.mem_states_determinize.mp member
    exact ⟨Dfa.walk_of_subset? stands, Dfa.walk_to_final valid completed stands⟩
  · exact Dfa.walk_iff_extends valid completed

theorem compile_useful_starred :
    ∃ dfa, compile ['(', 'a', '|', 'a', 'b', ')', '*', 'c'] = .ok dfa ∧
      (∀ state ∈ dfa.automaton.states,
        (∃ word, dfa.automaton.walk dfa.automaton.start word = some state) ∧
          ∃ word, ∃ final ∈ dfa.automaton.finals, dfa.automaton.walk state word = some final) ∧
        ∀ word, (∃ state, dfa.automaton.walk dfa.automaton.start word = some state) ↔
          ∃ extension, dfa.check (word ++ extension) = true := by
  have listed : Pattern.postorder ['(', 'a', '|', 'a', 'b', ')', '*', 'c'] =
      .ok (Tree.concat (.star (.union (.literal 'a') (.concat (.literal 'a') (.literal 'b'))))
        (.literal 'c')).postorder := rfl
  obtain ⟨dfa, compiled, _⟩ := compile_of_postorder listed
  exact ⟨dfa, compiled, compile_useful compiled⟩

end Recognizer
