import Recognizer.Proofs.Collection
import Recognizer.Proofs.Compile
import Recognizer.Proofs.Dfa.Kernels
import Recognizer.Proofs.Pattern.Conservation

/-!
What the literals of a pattern decide. Each literal makes one place where its symbol leads, and a
state other than the start stands for some of the places of one symbol. A pattern whose literals all
differ therefore has one state for each of them beside the start, and only a literal that is
repeated can multiply the states. An operator joins the alphabets of its operands in the order in
which they lie on the stack, so together the fragments on a stack always have the literals that were
taken in, in the order of their first occurrences. Neither listing a pattern nor determinizing an
automaton changes this order.
-/

namespace Recognizer

open Pattern

/-- A compiled automaton comes from the tree of its pattern. -/
theorem parses_of_compile {pattern : List Char} {dfa : Dfa}
    (compiled : compile pattern = .ok dfa) :
    ∃ tree nfa, Parses pattern tree ∧ Nfa.ofTokens tree.postorder = .ok nfa ∧
      Dfa.determinize nfa = dfa := by
  obtain ⟨nfa, built, same⟩ := ofPattern_of_compile compiled
  rw [ofPattern_eq_bind] at built
  cases listed : Pattern.postorder pattern with
  | error malformed =>
    rw [listed] at built
    cases built
  | ok tokens =>
    rw [listed] at built
    obtain ⟨tree, spelled, _⟩ := Nfa.tree_of_ofTokens built
    subst spelled
    exact ⟨tree, nfa, parses_of_postorder listed, built, same⟩

/-- Every literal of a tree stands in a word that is accepted. -/
theorem accepted_of_literal {tree : Tree} {nfa : Automaton}
    (built : Nfa.ofTokens tree.postorder = .ok nfa) {symbol : Char}
    (member : .literal symbol ∈ tree.postorder) :
    ∃ word, (Dfa.determinize nfa).check word = true ∧ symbol ∈ word := by
  obtain ⟨other, same, language⟩ := Nfa.tree_of_ofTokens built
  cases Tree.postorder_injective same
  obtain ⟨word, matched, inside⟩ := Tree.matches_of_mem_postorder member
  refine ⟨word, ?_, inside⟩
  rw [Dfa.check_ofTokens built]
  exact (language word).mpr matched

/-- Every literal of a tree is read by an edge. -/
theorem edge_of_literal {tree : Tree} {nfa : Automaton}
    (built : Nfa.ofTokens tree.postorder = .ok nfa) {symbol : Char}
    (member : .literal symbol ∈ tree.postorder) :
    ∃ state target, (Dfa.determinize nfa).automaton.HasEdge state (some symbol) target := by
  obtain ⟨word, accepted, inside⟩ := accepted_of_literal built member
  obtain ⟨final, _, walked⟩ := Automaton.check_iff.mp accepted
  exact (Automaton.path_of_walk walked).edge_of_mem inside

theorem length_landings_of_parses {pattern : List Char} {tree : Tree} {nfa : Automaton}
    (parses : Parses pattern tree) (built : Nfa.ofTokens tree.postorder = .ok nfa)
    (symbol : Char) :
    (landings symbol nfa.transitions.entries).length = (letters pattern).count symbol := by
  rw [Nfa.length_landings built, count_letters_of_parses parses]

theorem sum_counts_of_nodup {symbols : List Char} (distinct : symbols.Nodup) :
    ∑ symbol ∈ symbols.toFinset, (2 ^ symbols.count symbol - 1) = symbols.length := by
  rw [← List.toFinset_card_of_nodup distinct, Finset.card_eq_sum_ones]
  refine Finset.sum_congr rfl fun symbol member => ?_
  rw [List.count_eq_one_of_mem distinct (List.mem_toFinset.mp member)]
  rfl

/-- In a compiled automaton no edge leads back to the start, and all edges into another state read
one symbol. A symbol that stands `n` times in the pattern makes fewer than `2 ^ n` states; if no
literal is repeated there is one state for each and the start. -/
theorem compile_shape {pattern : List Char} {dfa : Dfa} (compiled : compile pattern = .ok dfa) :
    (∀ source symbol target, dfa.automaton.HasEdge source symbol target → target ≠ 0) ∧
      (∀ source symbol other letter target, dfa.automaton.HasEdge source symbol target →
        dfa.automaton.HasEdge other letter target → letter = symbol) ∧
      dfa.automaton.states.items.length ≤
        1 + ∑ letter ∈ (letters pattern).toFinset, (2 ^ (letters pattern).count letter - 1) ∧
      ((letters pattern).Nodup →
        dfa.automaton.states.items.length = 1 + (letters pattern).length) := by
  obtain ⟨tree, nfa, parses, built, same⟩ := parses_of_compile compiled
  subst same
  have landed := Nfa.landed_ofTokens built
  have counts := length_landings_of_parses parses built
  have covers : ∀ symbol, landings symbol nfa.transitions.entries ≠ [] →
      symbol ∈ (letters pattern).toFinset := by
    intro symbol filled
    rw [List.mem_toFinset, ← List.count_pos_iff, ← counts]
    exact List.length_pos_of_ne_nil filled
  have bound := Dfa.length_states_le nfa (letters pattern).toFinset covers
  simp only [counts] at bound
  refine ⟨fun _ _ _ => Dfa.target_ne_start landed, fun _ _ _ _ _ => Dfa.symbol_unique landed,
    bound, fun distinct => ?_⟩
  -- every literal is read somewhere, so there are no fewer states than the bound allows
  have read : ∀ letter ∈ letters pattern, ∃ state target,
      (Dfa.determinize nfa).automaton.HasEdge state (some letter) target := by
    intro letter member
    rw [← List.count_pos_iff, count_letters_of_parses parses, List.count_pos_iff] at member
    exact edge_of_literal built member
  have enough := Dfa.length_lt_states landed distinct read
  rw [sum_counts_of_nodup distinct] at bound
  omega

/-- Three literals, four states. -/
theorem compile_shape_starred :
    ∃ dfa, compile ['(', 'a', '|', 'b', ')', '*', 'c'] = .ok dfa ∧
      (∀ source symbol target, dfa.automaton.HasEdge source symbol target → target ≠ 0) ∧
      dfa.automaton.states.items.length = 1 + 3 := by
  have listed : Pattern.postorder ['(', 'a', '|', 'b', ')', '*', 'c'] =
      .ok (Tree.concat (.star (.union (.literal 'a') (.literal 'b'))) (.literal 'c')).postorder :=
    rfl
  obtain ⟨dfa, compiled, _⟩ := compile_of_postorder listed
  obtain ⟨apart, _, _, counted⟩ := compile_shape compiled
  exact ⟨dfa, compiled, apart, counted (by decide)⟩

namespace Nfa

namespace Builder

def alphabet : List Fragment → OrderedSet Char
  | [] => 0
  | fragment :: stack => alphabet stack + fragment.alphabet

theorem alphabet_applies {before after : Builder} {token : Token}
    (applied : Applies before token after) :
    alphabet after.stack =
      alphabet before.stack + OrderedSet.ofList (Token.literals [token]) := by
  cases applied with
  | literal next stack symbol => rfl
  | union next left right stack =>
    have joined : (Fragment.union next left right).alphabet =
        0 + left.alphabet + right.alphabet := rfl
    have silent : OrderedSet.ofList (Token.literals [.union]) = 0 := rfl
    rw [alphabet, alphabet, alphabet, joined, silent, zero_add, add_zero, add_assoc]
  | concat next left right stack =>
    have joined : (Fragment.concat left right).alphabet = left.alphabet + right.alphabet := rfl
    have silent : OrderedSet.ofList (Token.literals [.concat]) = 0 := rfl
    rw [alphabet, alphabet, alphabet, joined, silent, add_zero, add_assoc]
  | star next inner stack =>
    have joined : (Fragment.star next inner).alphabet = 0 + inner.alphabet := rfl
    have silent : OrderedSet.ofList (Token.literals [.star]) = 0 := rfl
    rw [alphabet, alphabet, joined, silent, zero_add, add_zero]

theorem alphabet_builds {before after : Builder} {tokens : List Token}
    (built : Builds before tokens after) :
    alphabet after.stack =
      alphabet before.stack + OrderedSet.ofList (Token.literals tokens) := by
  refine adds_builds (fun builder => alphabet builder.stack)
    (fun tokens => OrderedSet.ofList (Token.literals tokens)) rfl (fun token rest => ?_)
    (fun applied => alphabet_applies applied) built
  rw [← OrderedSet.ofList_append, ← Token.literals_append, List.singleton_append]

end Builder

theorem alphabet_ofTokens {tokens : List Token} {automaton : Automaton}
    (built : ofTokens tokens = .ok automaton) :
    automaton.alphabet = OrderedSet.ofList (Token.literals tokens) := by
  obtain ⟨next, fragment, run, same⟩ := ofTokens_ok_iff.mp built
  subst same
  have joined := Builder.alphabet_builds run
  change 0 + fragment.alphabet = 0 + OrderedSet.ofList (Token.literals tokens) at joined
  rw [zero_add, zero_add] at joined
  exact joined

end Nfa

/-- Both automata of a pattern have its letters and digits for their alphabet, in the order of their
first occurrences; and none of them is idle, since these are the symbols of accepted words. -/
theorem compile_alphabet {pattern : List Char} {dfa : Dfa} (compiled : compile pattern = .ok dfa) :
    (∃ nfa, Nfa.ofPattern pattern = .ok nfa ∧ Dfa.determinize nfa = dfa ∧
      nfa.alphabet.items = (letters pattern).eraseDups) ∧
    dfa.automaton.alphabet.items = (letters pattern).eraseDups ∧
    ∀ symbol, symbol ∈ dfa.automaton.alphabet ↔
      ∃ word, dfa.check word = true ∧ symbol ∈ word := by
  obtain ⟨tree, nfa, parses, built, same⟩ := parses_of_compile compiled
  subst same
  have listed : Pattern.postorder pattern = .ok tree.postorder := postorder_of_parses parses
  have made : Nfa.ofPattern pattern = .ok nfa := by
    rw [ofPattern_eq_bind, listed]
    exact built
  have literals : nfa.alphabet = OrderedSet.ofList (letters pattern) := by
    rw [Nfa.alphabet_ofTokens built, literals_of_postorder listed]
  have ordered : nfa.alphabet.items = (letters pattern).eraseDups := by
    rw [literals, OrderedSet.items_ofList_eraseDups]
  refine ⟨⟨nfa, made, rfl, ordered⟩, ordered, fun symbol => ⟨fun member => ?_, ?_⟩⟩
  · have letter : symbol ∈ nfa.alphabet := member
    rw [literals, OrderedSet.mem_ofList, ← literals_of_postorder listed] at letter
    exact accepted_of_literal built (Token.mem_literals.mp letter)
  · rintro ⟨word, accepted, inside⟩
    obtain ⟨final, _, walked⟩ := Automaton.check_iff.mp accepted
    exact (Dfa.valid_determinize nfa).symbols_of_walk walked symbol inside

/-- The union's symbols lie in the order in which they are written, and the second `b` is known. -/
theorem compile_alphabet_starred :
    ∃ dfa, compile ['b', '(', 'a', '|', 'b', ')', '*', 'c'] = .ok dfa ∧
      dfa.automaton.alphabet.items = ['b', 'a', 'c'] ∧
      ∀ symbol, symbol ∈ dfa.automaton.alphabet ↔
        ∃ word, dfa.check word = true ∧ symbol ∈ word := by
  have listed : Pattern.postorder ['b', '(', 'a', '|', 'b', ')', '*', 'c'] =
      .ok (Tree.concat (.concat (.literal 'b') (.star (.union (.literal 'a') (.literal 'b'))))
        (.literal 'c')).postorder := rfl
  obtain ⟨dfa, compiled, _⟩ := compile_of_postorder listed
  obtain ⟨_, ordered, used⟩ := compile_alphabet compiled
  exact ⟨dfa, compiled, ordered, used⟩

end Recognizer
