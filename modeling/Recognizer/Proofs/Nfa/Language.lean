import Recognizer.Proofs.Nfa.Activity
import Recognizer.Proofs.Nfa.Recognition
import Recognizer.Proofs.Pattern.Reading

/-!
The language of an automaton built from postorder. While a builder takes in tokens, a stack of trees
takes them in beside it, and every fragment recognizes the tree at its own place. A successful run
ends with one tree, whose postorder was read and whose words the automaton accepts. From every state
of a fragment its accept state is reached, so no state of the automaton is one from which every word
fails.
-/

namespace Recognizer.Nfa

open Pattern
open Builder (Applies Builds Tiles)

theorem recognizes_applies {before after : Builder} {token : Token} {trees : List Tree}
    (applied : Applies before token after) (tiles : Tiles before.next before.stack)
    (known : List.Forall₂ Fragment.Recognizes before.stack trees) :
    ∃ grown, Tree.shift? token trees = some grown ∧
      List.Forall₂ Fragment.Recognizes after.stack grown := by
  cases applied with
  | literal next stack symbol =>
    exact ⟨_, rfl, List.Forall₂.cons (Fragment.recognizes_literal next symbol) known⟩
  | union next left right stack =>
    cases tiles with | above tiles second =>
    cases tiles with | above tiles first =>
    cases known with | cons rightWords known =>
    cases known with | cons leftWords known =>
    exact ⟨_, rfl,
      List.Forall₂.cons (Fragment.recognizes_union first second leftWords rightWords) known⟩
  | concat next left right stack =>
    cases tiles with | above tiles second =>
    cases tiles with | above tiles first =>
    cases known with | cons rightWords known =>
    cases known with | cons leftWords known =>
    exact ⟨_, rfl,
      List.Forall₂.cons (Fragment.recognizes_concat first second leftWords rightWords) known⟩
  | star next inner stack =>
    cases tiles with | above tiles owned =>
    cases known with | cons words known =>
    exact ⟨_, rfl, List.Forall₂.cons (Fragment.recognizes_star owned words) known⟩

theorem recognizes_builds {before after : Builder} {tokens : List Token} {trees : List Tree}
    (built : Builds before tokens after) (tiles : Tiles before.next before.stack)
    (known : List.Forall₂ Fragment.Recognizes before.stack trees) :
    ∃ grown, Tree.takeIn? tokens trees = some grown ∧
      List.Forall₂ Fragment.Recognizes after.stack grown := by
  induction built generalizing trees with
  | nothing => exact ⟨trees, rfl, known⟩
  | token applied _ ih =>
    obtain ⟨middle, shifted, step⟩ := recognizes_applies applied tiles known
    obtain ⟨grown, taken, final⟩ := ih (Builder.tiles_applies applied tiles) step
    exact ⟨grown, Option.bind_eq_some_iff.mpr ⟨middle, shifted, taken⟩, final⟩

theorem accepts_toAutomaton {fragment : Fragment} {tree : Tree}
    (words : fragment.Recognizes tree) {word : List Char} :
    fragment.toAutomaton.accepts word = true ↔ tree.Matches word := by
  rw [Automaton.accepts_iff, ← words word]
  constructor
  · rintro ⟨final, member, path⟩
    cases List.mem_singleton.mp (OrderedSet.mem_ofList.mp member)
    exact path
  · intro path
    exact ⟨fragment.accept, OrderedSet.mem_ofList.mpr (List.mem_singleton_self _), path⟩

/-- Tokens that make an automaton are the postorder of a tree, and the automaton accepts the words
that the tree matches. -/
theorem tree_of_ofTokens {tokens : List Token} {automaton : Automaton}
    (built : ofTokens tokens = .ok automaton) :
    ∃ tree : Tree, tokens = tree.postorder ∧
      ∀ word, automaton.accepts word = true ↔ tree.Matches word := by
  obtain ⟨next, fragment, run, same⟩ := ofTokens_ok_iff.mp built
  obtain ⟨trees, taken, known⟩ := recognizes_builds run Tiles.empty List.Forall₂.nil
  cases known with | cons words below =>
  cases below
  subst same
  exact ⟨_, Tree.takeIn?_eq_single_iff.mp taken, fun word => accepts_toAutomaton words⟩

/-- The postorder of a tree puts one fragment on the stack. -/
theorem builds_postorder (tree : Tree) (next : Nat) (stack : List Fragment) :
    ∃ last fragment, Builds ⟨next, stack⟩ tree.postorder ⟨last, fragment :: stack⟩ := by
  induction tree generalizing next stack with
  | literal symbol =>
    exact ⟨_, _, Builds.token (Applies.literal next stack symbol) (Builds.nothing _)⟩
  | union left right leftIH rightIH =>
    obtain ⟨middle, first, before⟩ := leftIH next stack
    obtain ⟨last, second, between⟩ := rightIH middle (first :: stack)
    have operator := Builds.token (Applies.union last first second stack) (Builds.nothing _)
    exact ⟨_, _, Builder.builds_append (Builder.builds_append before between) operator⟩
  | concat left right leftIH rightIH =>
    obtain ⟨middle, first, before⟩ := leftIH next stack
    obtain ⟨last, second, between⟩ := rightIH middle (first :: stack)
    have operator := Builds.token (Applies.concat last first second stack) (Builds.nothing _)
    exact ⟨_, _, Builder.builds_append (Builder.builds_append before between) operator⟩
  | star inner ih =>
    obtain ⟨last, fragment, before⟩ := ih next stack
    have operator := Builds.token (Applies.star last fragment stack) (Builds.nothing _)
    exact ⟨_, _, Builder.builds_append before operator⟩

theorem ofTokens_postorder (tree : Tree) :
    ∃ automaton : Automaton, ofTokens tree.postorder = .ok automaton ∧
      ∀ word, automaton.accepts word = true ↔ tree.Matches word := by
  obtain ⟨last, fragment, run⟩ := builds_postorder tree 0 []
  have built : ofTokens tree.postorder = .ok fragment.toAutomaton :=
    ofTokens_ok_iff.mpr ⟨last, fragment, run, rfl⟩
  obtain ⟨other, same, language⟩ := tree_of_ofTokens built
  cases Tree.postorder_injective same
  exact ⟨_, built, language⟩

/-- A text that makes an automaton is the postorder of one tree only, and the automaton accepts the
words that this tree matches. -/
theorem accepts_ofPostorder {text : List Char} {automaton : Automaton}
    (built : ofPostorder text = .ok automaton) :
    ∃ tree : Tree, Token.read text = .ok tree.postorder ∧
      (∀ other : Tree, Token.text other.postorder = text → other = tree) ∧
      ∀ word, automaton.accepts word = true ↔ tree.Matches word := by
  obtain ⟨tokens, read, made⟩ := ofPostorder_ok_iff.mp built
  obtain ⟨tree, same, language⟩ := tree_of_ofTokens made
  subst same
  exact ⟨tree, read, fun other => postorder_unique read, language⟩

theorem accepts_ofPostorder_starred :
    ∃ automaton, ofPostorder ['a', 'b', '|', '*', 'c', '.'] = .ok automaton ∧
      ∃ tree : Tree, Token.read ['a', 'b', '|', '*', 'c', '.'] = .ok tree.postorder ∧
        (∀ other : Tree, Token.text other.postorder = ['a', 'b', '|', '*', 'c', '.'] →
          other = tree) ∧
        ∀ word, automaton.accepts word = true ↔ tree.Matches word :=
  ⟨_, rfl, accepts_ofPostorder rfl⟩

open Pattern
open Automaton (Path)

namespace Fragment

def Completes (fragment : Fragment) : Prop :=
  ∀ state ∈ fragment.states, ∃ word, fragment.toAutomaton.Path state word fragment.accept

variable {low middle high : Nat} {left right inner : Fragment}

/-- What leads on from the accept state of a part leads on from all its states. -/
theorem path_through_part {whole part : Fragment} {first last target : Nat} {back : List Char}
    (covers : Owns first last whole) (owned : Owns low high part)
    (lists : ∀ before letter after, part.Links before letter after →
      whole.Links before letter after)
    (completes : part.Completes) (onward : whole.toAutomaton.Path part.accept back target)
    {state : Nat} (member : state ∈ part.states) :
    ∃ word, whole.toAutomaton.Path state word target := by
  obtain ⟨front, path⟩ := completes state member
  have through := path_of_part covers owned lists path
  exact ⟨front ++ back, through.append onward⟩

theorem start_mem_states {fragment : Fragment} (owned : Owns low high fragment) :
    fragment.start ∈ fragment.states :=
  (owned.members _).mpr owned.start

theorem completes_literal (next : Nat) (symbol : Char) : (literal next symbol).Completes := by
  have owned := owns_literal next symbol
  intro state member
  change state ∈ [next, next + 1] at member
  rcases List.mem_cons.mp member with start | accept
  · subst start
    have edge : (literal state symbol).toAutomaton.HasEdge state (some symbol) (state + 1) :=
      (hasEdge_toAutomaton owned).mpr (links_literal.mpr ⟨rfl, rfl, rfl⟩)
    exact ⟨[symbol], Path.reading edge (Path.here _)⟩
  · cases List.mem_singleton.mp accept
    exact ⟨[], Path.here _⟩

theorem completes_union (first : Owns low middle left) (second : Owns middle high right)
    (leftCompletes : left.Completes) (rightCompletes : right.Completes) :
    (union high left right).Completes := by
  have covers := owns_union first second
  have exit : ∀ {source}, source = left.accept ∨ source = right.accept →
      (union high left right).toAutomaton.Path source [] (high + 1) := by
    intro source exits
    have edge := (links_union_exit first second exits).mpr ⟨rfl, rfl⟩
    exact Path.silent ((hasEdge_toAutomaton covers).mpr edge) (Path.here _)
  have inLeft : ∀ state ∈ left.states, ∃ word,
      (union high left right).toAutomaton.Path state word (high + 1) := by
    intro state member
    refine path_through_part covers first ?_ leftCompletes (exit (Or.inl rfl)) member
    exact fun _ _ _ edge => links_union.mpr (Or.inr (Or.inr (Or.inl edge)))
  have inRight : ∀ state ∈ right.states, ∃ word,
      (union high left right).toAutomaton.Path state word (high + 1) := by
    intro state member
    refine path_through_part covers second ?_ rightCompletes (exit (Or.inr rfl)) member
    exact fun _ _ _ edge => links_union.mpr (Or.inr (Or.inr (Or.inr edge)))
  intro state member
  rw [states_union, List.mem_cons, List.mem_cons, List.mem_append] at member
  rcases member with start | accept | before | behind
  · subst start
    obtain ⟨word, path⟩ := inLeft left.start (start_mem_states first)
    have edge := (links_union_start first second).mpr ⟨rfl, Or.inl rfl⟩
    exact ⟨word, Path.silent ((hasEdge_toAutomaton covers).mpr edge) path⟩
  · subst accept
    exact ⟨[], Path.here _⟩
  · exact inLeft state before
  · exact inRight state behind

theorem completes_concat (first : Owns low middle left) (second : Owns middle high right)
    (leftCompletes : left.Completes) (rightCompletes : right.Completes) :
    (concat left right).Completes := by
  have covers := owns_concat first second
  have inRight : ∀ state ∈ right.states, ∃ word,
      (concat left right).toAutomaton.Path state word right.accept := by
    intro state member
    refine path_through_part covers second ?_ rightCompletes (Path.here _) member
    exact fun _ _ _ edge => links_concat.mpr (Or.inr (Or.inr edge))
  intro state member
  rw [states_concat, List.mem_append] at member
  rcases member with before | behind
  · -- the left operand leads into the right one
    obtain ⟨word, path⟩ := inRight right.start (start_mem_states second)
    have edge := (links_concat_exit first second).mpr ⟨rfl, rfl⟩
    have onward := Path.silent ((hasEdge_toAutomaton covers).mpr edge) path
    refine path_through_part covers first ?_ leftCompletes onward before
    exact fun _ _ _ edge => links_concat.mpr (Or.inl edge)
  · exact inRight state behind

theorem completes_star (owned : Owns low high inner) (completes : inner.Completes) :
    (star high inner).Completes := by
  have covers := owns_star owned
  have exit : ∀ {source}, source = high ∨ source = inner.accept →
      (star high inner).toAutomaton.Path source [] (high + 1) := by
    intro source exits
    have edge := (links_star_exit owned exits).mpr ⟨rfl, Or.inr rfl⟩
    exact Path.silent ((hasEdge_toAutomaton covers).mpr edge) (Path.here _)
  intro state member
  rw [states_star, List.mem_cons, List.mem_cons] at member
  rcases member with start | accept | inside
  · exact ⟨[], exit (Or.inl start)⟩
  · subst accept
    exact ⟨[], Path.here _⟩
  · refine path_through_part covers owned ?_ completes (exit (Or.inr rfl)) inside
    exact fun _ _ _ edge => links_star.mpr (Or.inr edge)

theorem kept_completes : Builder.Kept Completes where
  literal := completes_literal
  union := completes_union
  concat := completes_concat
  star := completes_star

end Fragment

theorem completed_ofTokens {tokens : List Token} {automaton : Automaton}
    (built : ofTokens tokens = .ok automaton) : automaton.Completed := by
  intro state member
  obtain ⟨next, fragment, run, same⟩ := ofTokens_ok_iff.mp built
  subst same
  have completes : fragment.Completes := Builder.holds_builds Fragment.kept_completes run
    Builder.Tiles.empty (List.forall_mem_nil _) fragment (List.mem_singleton_self _)
  obtain ⟨word, path⟩ := completes state (OrderedSet.mem_ofList.mp member)
  exact ⟨word, fragment.accept, OrderedSet.mem_ofList.mpr (List.mem_singleton_self _), path⟩

end Recognizer.Nfa
