import Recognizer.Proofs.Nfa.Stack

/-!
Where the symbols of a pattern lead. Every literal makes one edge that reads it, and the state this
edge leads to is entered by no other edge: silent edges only enter start states of fragments, which
no symbol leads to, and the states that an operator makes. The start state is entered by nothing.
-/

namespace Recognizer

def landings (symbol : Char) (edges : List (Nat × List Transition)) : List Nat :=
  edges.flatMap fun entry => (entry.2.filter (·.symbol = some symbol)).map Transition.target

theorem mem_landings {symbol : Char} {edges : List (Nat × List Transition)} {target : Nat} :
    target ∈ landings symbol edges ↔ ∃ source, Nfa.Listed edges source (some symbol) target := by
  unfold landings Nfa.Listed
  rw [List.mem_flatMap]
  constructor
  · rintro ⟨⟨source, transitions⟩, entry, member⟩
    obtain ⟨⟨read, _⟩, edge, same⟩ := List.mem_map.mp member
    obtain ⟨listed, reads⟩ := List.mem_filter.mp edge
    cases same
    cases of_decide_eq_true reads
    exact ⟨source, transitions, entry, listed⟩
  · rintro ⟨source, transitions, entry, edge⟩
    exact ⟨(source, transitions), entry,
      List.mem_map.mpr ⟨_, List.mem_filter.mpr ⟨edge, decide_eq_true rfl⟩, rfl⟩⟩

/-- What a symbol leads to is entered on that symbol alone, and the start state on none. -/
structure Automaton.Landed (automaton : Automaton) : Prop where
  start : ∀ source symbol, ¬automaton.HasEdge source symbol automaton.start
  alone : ∀ source symbol target, automaton.HasEdge source (some symbol) target →
    ∀ other letter, automaton.HasEdge other letter target → letter = some symbol

namespace Nfa

open Pattern

namespace Fragment

def Alone (fragment : Fragment) : Prop :=
  ∀ source symbol target, fragment.Links source (some symbol) target →
    ∀ other letter, fragment.Links other letter target → letter = some symbol

variable {low middle high : Nat} {left right inner : Fragment}

theorem alone_literal (next : Nat) (letter : Char) : (literal next letter).Alone := by
  intro source symbol target edge other read entered
  obtain ⟨_, reads, _⟩ := links_literal.mp edge
  obtain ⟨_, same, _⟩ := links_literal.mp entered
  exact same.trans reads.symm

theorem alone_union (first : Owns low middle left) (second : Owns middle high right)
    (leftAlone : left.Alone) (rightAlone : right.Alone) : (union high left right).Alone := by
  intro source symbol target edge other letter entered
  rcases links_union.mp edge with ⟨silent, _⟩ | ⟨silent, _⟩ | old | old
  · cases silent
  · cases silent
  · have inside := first.enters source (some symbol) target old
    have := second.start
    rcases links_union.mp entered with ⟨_, _, made⟩ | ⟨_, _, made⟩ | again | across
    · omega
    · have := second.accept
      omega
    · exact leftAlone source symbol target old other letter again
    · have := second.enters other letter target across
      omega
  · have inside := second.enters source (some symbol) target old
    have := first.start
    rcases links_union.mp entered with ⟨_, _, made⟩ | ⟨_, _, made⟩ | across | again
    · omega
    · omega
    · have := first.enters other letter target across
      omega
    · exact rightAlone source symbol target old other letter again

theorem alone_concat (first : Owns low middle left) (second : Owns middle high right)
    (leftAlone : left.Alone) (rightAlone : right.Alone) : (concat left right).Alone := by
  intro source symbol target edge other letter entered
  rcases links_concat.mp edge with old | ⟨silent, _⟩ | old
  · have inside := first.enters source (some symbol) target old
    have := second.start
    rcases links_concat.mp entered with again | ⟨_, _, made⟩ | across
    · exact leftAlone source symbol target old other letter again
    · omega
    · have := second.enters other letter target across
      omega
  · cases silent
  · have inside := second.enters source (some symbol) target old
    rcases links_concat.mp entered with across | ⟨_, _, made⟩ | again
    · have := first.enters other letter target across
      omega
    · omega
    · exact rightAlone source symbol target old other letter again

theorem alone_star (owned : Owns low high inner) (alone : inner.Alone) :
    (star high inner).Alone := by
  intro source symbol target edge other letter entered
  rcases links_star.mp edge with ⟨silent, _⟩ | old
  · cases silent
  · have inside := owned.enters source (some symbol) target old
    rcases links_star.mp entered with ⟨_, _, made⟩ | again
    · omega
    · exact alone source symbol target old other letter again

theorem kept_alone : Builder.Kept Alone where
  literal := alone_literal
  union := alone_union
  concat := alone_concat
  star := alone_star

theorem landed_toAutomaton {fragment : Fragment} (owned : Owns low high fragment)
    (alone : fragment.Alone) : fragment.toAutomaton.Landed where
  start := by
    intro source symbol edge
    have bounds := owned.enters source symbol _ ((hasEdge_toAutomaton owned).mp edge)
    exact bounds.2.2 rfl
  alone := by
    intro source symbol target edge other letter entered
    exact alone source symbol target ((hasEdge_toAutomaton owned).mp edge) other letter
      ((hasEdge_toAutomaton owned).mp entered)

end Fragment

theorem landed_ofTokens {tokens : List Token} {automaton : Automaton}
    (built : ofTokens tokens = .ok automaton) : automaton.Landed := by
  obtain ⟨next, fragment, run, same⟩ := ofTokens_ok_iff.mp built
  subst same
  have alone : fragment.Alone := Builder.holds_builds Fragment.kept_alone run Builder.Tiles.empty
    (List.forall_mem_nil _) fragment (List.mem_singleton_self _)
  exact Fragment.landed_toAutomaton (owns_of_builds run) alone

namespace Fragment

theorem landings_literal (next : Nat) (letter symbol : Char) :
    landings symbol (literal next letter).edges = if letter = symbol then [next + 1] else [] := by
  by_cases same : letter = symbol <;> simp [landings, literal, Transition.reading, same]

theorem landings_union (next : Nat) (left right : Fragment) (symbol : Char) :
    landings symbol (union next left right).edges =
      landings symbol left.edges ++ landings symbol right.edges := by
  simp [landings, union, absorb, around, Transition.silent]

theorem landings_concat (left right : Fragment) (symbol : Char) :
    landings symbol (concat left right).edges =
      landings symbol left.edges ++ landings symbol right.edges := by
  simp [landings, concat, absorb, Transition.silent]

theorem landings_star (next : Nat) (inner : Fragment) (symbol : Char) :
    landings symbol (star next inner).edges = landings symbol inner.edges := by
  simp [landings, star, absorb, around, Transition.silent]

end Fragment

namespace Builder

def landed (symbol : Char) : List Fragment → Nat
  | [] => 0
  | fragment :: stack => (landings symbol fragment.edges).length + landed symbol stack

/-- Only a literal adds an edge that reads its symbol. -/
theorem landed_applies {before after : Builder} {token : Token}
    (applied : Applies before token after) (symbol : Char) :
    landed symbol after.stack = landed symbol before.stack + [token].count (.literal symbol) := by
  cases applied with
  | literal next stack letter =>
    rw [landed, Fragment.landings_literal, List.count_singleton]
    by_cases same : letter = symbol <;> simp [same, Nat.add_comm]
  | union next left right stack =>
    have apart : [Token.union].count (.literal symbol) = 0 := rfl
    simp only [landed, Fragment.landings_union, List.length_append, apart]
    omega
  | concat next left right stack =>
    have apart : [Token.concat].count (.literal symbol) = 0 := rfl
    simp only [landed, Fragment.landings_concat, List.length_append, apart]
    omega
  | star next inner stack =>
    have apart : [Token.star].count (.literal symbol) = 0 := rfl
    simp only [landed, Fragment.landings_star, apart, Nat.add_zero]

theorem landed_builds {before after : Builder} {tokens : List Token}
    (built : Builds before tokens after) (symbol : Char) :
    landed symbol after.stack = landed symbol before.stack + tokens.count (.literal symbol) := by
  refine adds_builds (fun builder => landed symbol builder.stack) (List.count (.literal symbol))
    List.count_nil (fun token rest => ?_) (fun applied => landed_applies applied symbol) built
  rw [← List.count_append, List.singleton_append]

end Builder

/-- A symbol leads to as many states as there are literals of it. -/
theorem length_landings {tokens : List Token} {automaton : Automaton}
    (built : ofTokens tokens = .ok automaton) (symbol : Char) :
    (landings symbol automaton.transitions.entries).length = tokens.count (.literal symbol) := by
  obtain ⟨next, fragment, run, same⟩ := ofTokens_ok_iff.mp built
  subst same
  rw [Fragment.entries_toAutomaton (owns_of_builds run)]
  have counted := Builder.landed_builds run symbol
  simpa [Builder.landed, Builder.fresh] using counted

end Nfa

end Recognizer
