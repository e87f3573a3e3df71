import Mathlib.Data.List.Nodup
import Recognizer.Nfa.Thompson
import Recognizer.Proofs.Automaton.Validity

/-!
The fragments on a builder's stack. Each one owns an interval of states: its edges stay inside it,
none leaves its accept state and none enters its start state. The intervals follow one another from
the bottom of the stack to the top and leave no state out, so two fragments share no source and the
tables that an operator puts together are disjoint.
-/

namespace Recognizer.Nfa

open Pattern

def Listed (edges : List (Nat × List Transition)) (source : Nat) (symbol : Option Char)
    (target : Nat) : Prop :=
  ∃ transitions, (source, transitions) ∈ edges ∧ ⟨symbol, target⟩ ∈ transitions

section Listed

variable {source target : Nat} {symbol : Option Char}

theorem not_listed_nil : ¬ Listed [] source symbol target := by
  rintro ⟨_, member, _⟩
  cases member

theorem listed_cons {first : Nat} {transitions : List Transition}
    {rest : List (Nat × List Transition)} :
    Listed ((first, transitions) :: rest) source symbol target ↔
      (source = first ∧ ⟨symbol, target⟩ ∈ transitions) ∨ Listed rest source symbol target := by
  constructor
  · rintro ⟨values, member, edge⟩
    rcases List.mem_cons.mp member with same | later
    · cases same
      exact Or.inl ⟨rfl, edge⟩
    · exact Or.inr ⟨values, later, edge⟩
  · rintro (⟨same, edge⟩ | ⟨values, later, edge⟩)
    · subst same
      exact ⟨transitions, List.mem_cons_self, edge⟩
    · exact ⟨values, List.mem_cons_of_mem _ later, edge⟩

theorem listed_append {left right : List (Nat × List Transition)} :
    Listed (left ++ right) source symbol target ↔
      Listed left source symbol target ∨ Listed right source symbol target := by
  simp only [Listed, List.mem_append, or_and_right, exists_or]

end Listed

namespace Fragment

def Links (fragment : Fragment) (source : Nat) (symbol : Option Char) (target : Nat) : Prop :=
  Listed fragment.edges source symbol target

section Links

variable {source target : Nat} {symbol : Option Char}

theorem links_literal {next : Nat} {letter : Char} :
    (literal next letter).Links source symbol target ↔
      source = next ∧ symbol = some letter ∧ target = next + 1 := by
  simp [Links, literal, listed_cons, not_listed_nil, Transition.reading]

theorem links_union {next : Nat} {left right : Fragment} :
    (union next left right).Links source symbol target ↔
      (symbol = none ∧ source = next ∧ (target = left.start ∨ target = right.start)) ∨
      (symbol = none ∧ (source = left.accept ∨ source = right.accept) ∧ target = next + 1) ∨
      left.Links source symbol target ∨ right.Links source symbol target := by
  simp only [Links, union, absorb, around, listed_append, listed_cons, not_listed_nil, or_false,
    Transition.silent, List.mem_cons, List.not_mem_nil, Transition.mk.injEq]
  tauto

theorem links_concat {left right : Fragment} :
    (concat left right).Links source symbol target ↔
      left.Links source symbol target ∨
      (symbol = none ∧ source = left.accept ∧ target = right.start) ∨
      right.Links source symbol target := by
  simp only [Links, concat, absorb, listed_append, listed_cons, Transition.silent, List.mem_cons,
    List.not_mem_nil, or_false, Transition.mk.injEq]
  tauto

theorem links_star {next : Nat} {inner : Fragment} :
    (star next inner).Links source symbol target ↔
      (symbol = none ∧ (source = next ∨ source = inner.accept) ∧
        (target = inner.start ∨ target = next + 1)) ∨
      inner.Links source symbol target := by
  simp only [Links, star, absorb, around, listed_append, listed_cons, not_listed_nil, or_false,
    Transition.silent, List.mem_cons, List.not_mem_nil, Transition.mk.injEq]
  tauto

end Links

/-- The fragment owns the states from `low` up to `high`. -/
structure Owns (low high : Nat) (fragment : Fragment) : Prop where
  distinct : fragment.states.Nodup
  members : ∀ state, state ∈ fragment.states ↔ low ≤ state ∧ state < high
  start : low ≤ fragment.start ∧ fragment.start < high
  accept : low ≤ fragment.accept ∧ fragment.accept < high
  ends : fragment.start ≠ fragment.accept
  sources : (fragment.edges.map Prod.fst).Nodup
  leaves : ∀ source ∈ fragment.edges.map Prod.fst,
    low ≤ source ∧ source < high ∧ source ≠ fragment.accept
  enters : ∀ source symbol target, fragment.Links source symbol target →
    low ≤ target ∧ target < high ∧ target ≠ fragment.start
  symbols : ∀ source symbol target, fragment.Links source (some symbol) target →
    symbol ∈ fragment.alphabet

variable {low middle high next : Nat} {fragment left right inner : Fragment}

theorem owns_literal (next : Nat) (symbol : Char) : Owns next (next + 2) (literal next symbol) where
  distinct := by simp [literal]
  members := by
    intro state
    simp only [literal, List.mem_cons, List.not_mem_nil, or_false]
    omega
  start := by simp [literal]
  accept := by simp [literal]
  ends := by simp [literal]
  sources := by simp [literal]
  leaves := by simp [literal]
  enters := by
    intro source symbol target edge
    obtain ⟨_, _, same⟩ := links_literal.mp edge
    simp only [literal]
    omega
  symbols := by
    intro source letter target edge
    obtain ⟨_, same, _⟩ := links_literal.mp edge
    cases same
    simp [literal]

/-- States outside the interval are no source, and neither is the accept state. -/
theorem not_source (owned : Owns low high fragment) {state : Nat}
    (outside : state < low ∨ high ≤ state ∨ state = fragment.accept) :
    state ∉ fragment.edges.map Prod.fst := by
  intro member
  have := owned.leaves state member
  omega

theorem states_disjoint (first : Owns low middle left) (second : Owns middle high right) :
    left.states.Disjoint right.states := by
  intro state before after
  have := (first.members state).mp before
  have := (second.members state).mp after
  omega

theorem sources_disjoint (first : Owns low middle left) (second : Owns middle high right) :
    (left.edges.map Prod.fst).Disjoint (right.edges.map Prod.fst) := by
  intro source before after
  have := first.leaves source before
  have := second.leaves source after
  omega

theorem states_union : (union next left right).states =
    next :: (next + 1) :: (left.states ++ right.states) := rfl

theorem sources_union : (union next left right).edges.map Prod.fst =
    next :: left.accept :: right.accept ::
      (left.edges.map Prod.fst ++ right.edges.map Prod.fst) := by
  simp [union, absorb, around]

theorem owns_union (first : Owns low middle left) (second : Owns middle high right) :
    Owns low (high + 2) (union high left right) := by
  have := first.start
  have := first.accept
  have := second.start
  have := second.accept
  constructor
  case distinct =>
    rw [states_union]
    refine List.nodup_cons.mpr ⟨?_, List.nodup_cons.mpr ⟨?_, ?_⟩⟩
    · simp only [List.mem_cons, List.mem_append, first.members, second.members]
      omega
    · simp only [List.mem_append, first.members, second.members]
      omega
    · exact first.distinct.append second.distinct (states_disjoint first second)
  case members =>
    intro state
    simp only [states_union, List.mem_cons, List.mem_append, first.members, second.members]
    omega
  case start =>
    change low ≤ high ∧ high < high + 2
    omega
  case accept =>
    change low ≤ high + 1 ∧ high + 1 < high + 2
    omega
  case ends => exact (Nat.succ_ne_self high).symm
  case sources =>
    -- neither accept state is a source of its part, so the new entries repeat no key
    rw [sources_union]
    refine List.nodup_cons.mpr ⟨?_, List.nodup_cons.mpr ⟨?_, List.nodup_cons.mpr ⟨?_, ?_⟩⟩⟩
    · rw [List.mem_cons, List.mem_cons, List.mem_append, not_or, not_or, not_or]
      exact ⟨by omega, by omega, not_source first (by omega), not_source second (by omega)⟩
    · rw [List.mem_cons, List.mem_append, not_or, not_or]
      exact ⟨by omega, not_source first (by omega), not_source second (by omega)⟩
    · rw [List.mem_append, not_or]
      exact ⟨not_source first (by omega), not_source second (by omega)⟩
    · exact first.sources.append second.sources (sources_disjoint first second)
  case leaves =>
    intro source member
    change low ≤ source ∧ source < high + 2 ∧ source ≠ high + 1
    rw [sources_union, List.mem_cons, List.mem_cons, List.mem_cons, List.mem_append] at member
    rcases member with made | made | made | old | old
    · omega
    · omega
    · omega
    · have := first.leaves source old
      omega
    · have := second.leaves source old
      omega
  case enters =>
    intro source symbol target edge
    change low ≤ target ∧ target < high + 2 ∧ target ≠ high
    rcases links_union.mp edge with ⟨_, _, made⟩ | ⟨_, _, made⟩ | old | old
    · omega
    · omega
    · have := first.enters source symbol target old
      omega
    · have := second.enters source symbol target old
      omega
  case symbols =>
    intro source symbol target edge
    rw [union, absorb, absorb, OrderedSet.mem_append, OrderedSet.mem_append]
    rcases links_union.mp edge with ⟨silent, _⟩ | ⟨silent, _⟩ | old | old
    · cases silent
    · cases silent
    · exact Or.inl (Or.inr (first.symbols source symbol target old))
    · exact Or.inr (second.symbols source symbol target old)

theorem states_concat : (concat left right).states = left.states ++ right.states := rfl

theorem sources_concat : (concat left right).edges.map Prod.fst =
    left.edges.map Prod.fst ++ left.accept :: right.edges.map Prod.fst := by
  simp [concat, absorb]

theorem owns_concat (first : Owns low middle left) (second : Owns middle high right) :
    Owns low high (concat left right) := by
  have := first.start
  have := first.accept
  have := second.start
  have := second.accept
  constructor
  case distinct =>
    rw [states_concat]
    exact first.distinct.append second.distinct (states_disjoint first second)
  case members =>
    intro state
    simp only [states_concat, List.mem_append, first.members, second.members]
    omega
  case start =>
    change low ≤ left.start ∧ left.start < high
    omega
  case accept =>
    change low ≤ right.accept ∧ right.accept < high
    omega
  case ends =>
    change left.start ≠ right.accept
    omega
  case sources =>
    -- the left accept state becomes a source only now
    rw [sources_concat]
    refine first.sources.append (List.nodup_cons.mpr ⟨?_, second.sources⟩) ?_
    · exact not_source second (by omega)
    · rw [List.disjoint_cons_right]
      exact ⟨not_source first (by omega), sources_disjoint first second⟩
  case leaves =>
    intro source member
    change low ≤ source ∧ source < high ∧ source ≠ right.accept
    rw [sources_concat, List.mem_append, List.mem_cons] at member
    rcases member with old | made | old
    · have := first.leaves source old
      omega
    · omega
    · have := second.leaves source old
      omega
  case enters =>
    intro source symbol target edge
    change low ≤ target ∧ target < high ∧ target ≠ left.start
    rcases links_concat.mp edge with old | ⟨_, _, made⟩ | old
    · have := first.enters source symbol target old
      omega
    · omega
    · have := second.enters source symbol target old
      omega
  case symbols =>
    intro source symbol target edge
    rw [concat, absorb, OrderedSet.mem_append]
    rcases links_concat.mp edge with old | ⟨silent, _⟩ | old
    · exact Or.inl (first.symbols source symbol target old)
    · cases silent
    · exact Or.inr (second.symbols source symbol target old)

theorem states_star : (star next inner).states = next :: (next + 1) :: inner.states := rfl

theorem sources_star : (star next inner).edges.map Prod.fst =
    next :: inner.accept :: inner.edges.map Prod.fst := by
  simp [star, absorb, around]

theorem owns_star (owned : Owns low high inner) : Owns low (high + 2) (star high inner) := by
  have := owned.start
  have := owned.accept
  constructor
  case distinct =>
    rw [states_star]
    refine List.nodup_cons.mpr ⟨?_, List.nodup_cons.mpr ⟨?_, owned.distinct⟩⟩
    · simp only [List.mem_cons, owned.members]
      omega
    · simp only [owned.members]
      omega
  case members =>
    intro state
    simp only [states_star, List.mem_cons, owned.members]
    omega
  case start =>
    change low ≤ high ∧ high < high + 2
    omega
  case accept =>
    change low ≤ high + 1 ∧ high + 1 < high + 2
    omega
  case ends => exact (Nat.succ_ne_self high).symm
  case sources =>
    rw [sources_star]
    refine List.nodup_cons.mpr ⟨?_, List.nodup_cons.mpr ⟨?_, owned.sources⟩⟩
    · rw [List.mem_cons, not_or]
      exact ⟨by omega, not_source owned (by omega)⟩
    · exact not_source owned (by omega)
  case leaves =>
    intro source member
    change low ≤ source ∧ source < high + 2 ∧ source ≠ high + 1
    rw [sources_star, List.mem_cons, List.mem_cons] at member
    rcases member with made | made | old
    · omega
    · omega
    · have := owned.leaves source old
      omega
  case enters =>
    intro source symbol target edge
    change low ≤ target ∧ target < high + 2 ∧ target ≠ high
    rcases links_star.mp edge with ⟨_, _, made⟩ | old
    · omega
    · have := owned.enters source symbol target old
      omega
  case symbols =>
    intro source symbol target edge
    rw [star, absorb, OrderedSet.mem_append]
    rcases links_star.mp edge with ⟨silent, _⟩ | old
    · cases silent
    · exact Or.inr (owned.symbols source symbol target old)

theorem entries_toAutomaton (owned : Owns low high fragment) :
    fragment.toAutomaton.transitions.entries = fragment.edges :=
  OrderedTable.entries_ofEntries owned.sources

theorem hasEdge_toAutomaton (owned : Owns low high fragment) {source target : Nat}
    {symbol : Option Char} :
    fragment.toAutomaton.HasEdge source symbol target ↔ fragment.Links source symbol target := by
  rw [Automaton.HasEdge, Automaton.transitionsFrom, OrderedTable.mem_valuesAt,
    entries_toAutomaton owned]
  rfl

/-- A fragment that owns its states makes an automaton that lacks nothing. -/
theorem valid_toAutomaton (owned : Owns low high fragment) : fragment.toAutomaton.Valid where
  start := OrderedSet.mem_ofList.mpr ((owned.members _).mpr owned.start)
  finals := by
    intro final member
    cases List.mem_singleton.mp (OrderedSet.mem_ofList.mp member)
    exact OrderedSet.mem_ofList.mpr ((owned.members _).mpr owned.accept)
  sources := by
    intro entry member
    rw [entries_toAutomaton owned] at member
    have bounds := owned.leaves entry.1 (List.mem_map_of_mem member)
    exact OrderedSet.mem_ofList.mpr ((owned.members _).mpr ⟨bounds.1, bounds.2.1⟩)
  targets := by
    rintro ⟨source, transitions⟩ member ⟨symbol, target⟩ edge
    rw [entries_toAutomaton owned] at member
    have bounds := owned.enters source symbol target ⟨transitions, member, edge⟩
    exact OrderedSet.mem_ofList.mpr ((owned.members _).mpr ⟨bounds.1, bounds.2.1⟩)
  symbols := by
    rintro ⟨source, transitions⟩ member ⟨_, target⟩ edge symbol reads
    rw [entries_toAutomaton owned] at member
    cases reads
    exact owned.symbols source symbol target ⟨transitions, member, edge⟩

end Fragment

end Recognizer.Nfa
