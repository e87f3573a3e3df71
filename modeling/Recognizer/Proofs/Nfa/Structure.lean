import Recognizer.Proofs.Nfa.Language
import Recognizer.Proofs.Pattern.Tally

/-!
The shape of an automaton built from postorder. Its states are numbered without a gap and its edges
are as many as the tokens ask for. A state reads one symbol on its only edge or has at most two
edges, all of them silent. Nothing leaves the final state, nothing enters the start state, and every
state stands between the two.
-/

namespace Recognizer

def Automaton.edgeCount (automaton : Automaton) : Nat :=
  (automaton.transitions.entries.flatMap Prod.snd).length

/-- The edges of one state: it reads a symbol, or it goes on silently to at most two states. -/
def Forks (transitions : List Transition) : Prop :=
  (∃ symbol target, transitions = [Transition.reading symbol target]) ∨
    ((∀ transition ∈ transitions, transition.isSilent = true) ∧ transitions.length ≤ 2)

namespace Nfa

open Pattern
open Automaton (Path)

namespace Fragment

def Forked (fragment : Fragment) : Prop := ∀ entry ∈ fragment.edges, Forks entry.2

variable {low middle high : Nat} {left right inner : Fragment}

theorem forks_silent (targets : List Nat) (few : targets.length ≤ 2) :
    Forks (targets.map Transition.silent) := by
  refine Or.inr ⟨?_, by rwa [List.length_map]⟩
  intro transition member
  obtain ⟨target, _, same⟩ := List.mem_map.mp member
  subst same
  rfl

theorem forked_literal (next : Nat) (symbol : Char) : (literal next symbol).Forked := by
  intro entry member
  cases List.mem_singleton.mp member
  exact Or.inl ⟨symbol, next + 1, rfl⟩

theorem forked_union (next : Nat) (leftForked : left.Forked) (rightForked : right.Forked) :
    (union next left right).Forked := by
  refine List.forall_mem_append.mpr ⟨List.forall_mem_append.mpr ⟨?_, leftForked⟩, rightForked⟩
  refine List.forall_mem_cons.mpr ⟨?_, List.forall_mem_cons.mpr ⟨?_, ?_⟩⟩
  · exact forks_silent [left.start, right.start] (Nat.le_refl 2)
  · exact forks_silent [next + 1] (Nat.le_succ 1)
  · exact List.forall_mem_singleton.mpr
      (forks_silent [next + 1] (Nat.le_succ 1))

theorem forked_concat (leftForked : left.Forked) (rightForked : right.Forked) :
    (concat left right).Forked := by
  refine List.forall_mem_append.mpr ⟨leftForked, List.forall_mem_cons.mpr ⟨?_, rightForked⟩⟩
  exact forks_silent [right.start] (Nat.le_succ 1)

theorem forked_star (next : Nat) (forked : inner.Forked) : (star next inner).Forked := by
  refine List.forall_mem_append.mpr ⟨?_, forked⟩
  refine List.forall_mem_cons.mpr ⟨?_, List.forall_mem_singleton.mpr ?_⟩
  · exact forks_silent [inner.start, next + 1] (Nat.le_refl 2)
  · exact forks_silent [inner.start, next + 1] (Nat.le_refl 2)

theorem kept_forked : Builder.Kept Forked where
  literal := forked_literal
  union := fun _ _ => forked_union _
  concat := fun _ _ => forked_concat
  star := fun _ => forked_star _

def Connects (fragment : Fragment) : Prop :=
  ∀ state ∈ fragment.states, ∃ word, fragment.toAutomaton.Path fragment.start word state

/-- What leads to the start state of a part leads to all its states. -/
theorem path_into_part {whole part : Fragment} {first last : Nat} {front : List Char}
    (covers : Owns first last whole) (owned : Owns low high part)
    (lists : ∀ before letter after, part.Links before letter after →
      whole.Links before letter after)
    (connects : part.Connects)
    (entered : whole.toAutomaton.Path whole.start front part.start)
    {state : Nat} (member : state ∈ part.states) :
    ∃ word, whole.toAutomaton.Path whole.start word state := by
  obtain ⟨back, path⟩ := connects state member
  exact ⟨front ++ back, entered.append (path_of_part covers owned lists path)⟩

theorem accept_mem_states {fragment : Fragment} (owned : Owns low high fragment) :
    fragment.accept ∈ fragment.states :=
  (owned.members _).mpr owned.accept

theorem connects_literal (next : Nat) (symbol : Char) : (literal next symbol).Connects := by
  have owned := owns_literal next symbol
  intro state member
  change state ∈ [next, next + 1] at member
  rcases List.mem_cons.mp member with start | accept
  · subst start
    exact ⟨[], Path.here _⟩
  · cases List.mem_singleton.mp accept
    have edge : (literal next symbol).toAutomaton.HasEdge next (some symbol) (next + 1) :=
      (hasEdge_toAutomaton owned).mpr (links_literal.mpr ⟨rfl, rfl, rfl⟩)
    exact ⟨[symbol], Path.reading edge (Path.here _)⟩

theorem connects_union (first : Owns low middle left) (second : Owns middle high right)
    (leftConnects : left.Connects) (rightConnects : right.Connects) :
    (union high left right).Connects := by
  have covers := owns_union first second
  have entrance : ∀ {target}, target = left.start ∨ target = right.start →
      (union high left right).toAutomaton.Path high [] target := by
    intro target enters
    have edge := (links_union_start first second).mpr ⟨rfl, enters⟩
    exact Path.silent ((hasEdge_toAutomaton covers).mpr edge) (Path.here _)
  have inLeft : ∀ state ∈ left.states, ∃ word,
      (union high left right).toAutomaton.Path high word state := by
    intro state member
    refine path_into_part covers first ?_ leftConnects (entrance (Or.inl rfl)) member
    exact fun _ _ _ edge => links_union.mpr (Or.inr (Or.inr (Or.inl edge)))
  have inRight : ∀ state ∈ right.states, ∃ word,
      (union high left right).toAutomaton.Path high word state := by
    intro state member
    refine path_into_part covers second ?_ rightConnects (entrance (Or.inr rfl)) member
    exact fun _ _ _ edge => links_union.mpr (Or.inr (Or.inr (Or.inr edge)))
  intro state member
  rw [states_union, List.mem_cons, List.mem_cons, List.mem_append] at member
  rcases member with start | accept | before | behind
  · subst start
    exact ⟨[], Path.here _⟩
  · subst accept
    obtain ⟨word, path⟩ := inLeft left.accept (accept_mem_states first)
    have edge := (links_union_exit first second (Or.inl rfl)).mpr ⟨rfl, rfl⟩
    have exit := Path.silent ((hasEdge_toAutomaton covers).mpr edge) (Path.here _)
    exact ⟨word ++ [], path.append exit⟩
  · exact inLeft state before
  · exact inRight state behind

theorem connects_concat (first : Owns low middle left) (second : Owns middle high right)
    (leftConnects : left.Connects) (rightConnects : right.Connects) :
    (concat left right).Connects := by
  have covers := owns_concat first second
  have inLeft : ∀ state ∈ left.states, ∃ word,
      (concat left right).toAutomaton.Path left.start word state := by
    intro state member
    refine path_into_part covers first ?_ leftConnects (Path.here _) member
    exact fun _ _ _ edge => links_concat.mpr (Or.inl edge)
  intro state member
  rw [states_concat, List.mem_append] at member
  rcases member with before | behind
  · exact inLeft state before
  · -- the way to the right operand leads through the left one
    obtain ⟨front, path⟩ := inLeft left.accept (accept_mem_states first)
    have edge := (links_concat_exit first second).mpr ⟨rfl, rfl⟩
    have entered := path.append (Path.silent ((hasEdge_toAutomaton covers).mpr edge) (Path.here _))
    refine path_into_part covers second ?_ rightConnects entered behind
    exact fun _ _ _ edge => links_concat.mpr (Or.inr (Or.inr edge))

theorem connects_star (owned : Owns low high inner) (connects : inner.Connects) :
    (star high inner).Connects := by
  have covers := owns_star owned
  have entrance : ∀ {target}, target = inner.start ∨ target = high + 1 →
      (star high inner).toAutomaton.Path high [] target := by
    intro target enters
    have edge := (links_star_exit owned (Or.inl rfl)).mpr ⟨rfl, enters⟩
    exact Path.silent ((hasEdge_toAutomaton covers).mpr edge) (Path.here _)
  intro state member
  rw [states_star, List.mem_cons, List.mem_cons] at member
  rcases member with start | accept | inside
  · subst start
    exact ⟨[], Path.here _⟩
  · subst accept
    exact ⟨[], entrance (Or.inr rfl)⟩
  · refine path_into_part covers owned ?_ connects (entrance (Or.inl rfl)) inside
    exact fun _ _ _ edge => links_star.mpr (Or.inr edge)

theorem kept_connects : Builder.Kept Connects where
  literal := connects_literal
  union := connects_union
  concat := connects_concat
  star := connects_star

def edgeCount (fragment : Fragment) : Nat :=
  (fragment.edges.flatMap Prod.snd).length

theorem edgeCount_union (next : Nat) (left right : Fragment) :
    (union next left right).edgeCount = left.edgeCount + right.edgeCount + 4 := by
  simp only [edgeCount, union, absorb, around, List.flatMap_append, List.flatMap_cons,
    List.flatMap_nil, List.length_append, List.length_cons, List.length_nil]
  omega

theorem edgeCount_concat (left right : Fragment) :
    (concat left right).edgeCount = left.edgeCount + right.edgeCount + 1 := by
  simp only [edgeCount, concat, absorb, List.flatMap_append, List.flatMap_cons,
    List.length_append, List.length_cons, List.length_nil]
  omega

theorem edgeCount_star (next : Nat) (inner : Fragment) :
    (star next inner).edgeCount = inner.edgeCount + 4 := by
  simp only [edgeCount, star, absorb, around, List.flatMap_append, List.flatMap_cons,
    List.flatMap_nil, List.length_append, List.length_cons, List.length_nil]
  omega

end Fragment

namespace Builder

/-- The states that tokens take up: two for each literal, union and star. -/
def stateGain (tokens : List Token) : Nat :=
  2 * (tokens.countP Token.isLiteral + tokens.count .union + tokens.count .star)

def edgeGain (tokens : List Token) : Nat :=
  tokens.countP Token.isLiteral + 4 * tokens.count .union + tokens.count .concat +
    4 * tokens.count .star

def edgeCount : List Fragment → Nat
  | [] => 0
  | fragment :: stack => fragment.edgeCount + edgeCount stack

theorem next_builds {before after : Builder} {tokens : List Token}
    (built : Builds before tokens after) : after.next = before.next + stateGain tokens := by
  refine adds_builds Builder.next stateGain rfl (fun token rest => ?_) (fun applied => ?_) built
  · rw [← List.singleton_append]
    simp only [stateGain, List.countP_append, List.count_append]
    omega
  · cases applied <;> rfl

theorem edges_builds {before after : Builder} {tokens : List Token}
    (built : Builds before tokens after) :
    edgeCount after.stack = edgeCount before.stack + edgeGain tokens := by
  refine adds_builds (fun builder => edgeCount builder.stack) edgeGain rfl
    (fun token rest => ?_) (fun applied => ?_) built
  · rw [← List.singleton_append]
    simp only [edgeGain, List.countP_append, List.count_append]
    omega
  · cases applied with
    | literal next stack symbol =>
      have gained : edgeGain [.literal symbol] = 1 := rfl
      have single : (Fragment.literal next symbol).edgeCount = 1 := rfl
      simp only [edgeCount, gained, single]
      omega
    | union next left right stack =>
      have gained : edgeGain [.union] = 4 := rfl
      simp only [edgeCount, gained, Fragment.edgeCount_union]
      omega
    | concat next left right stack =>
      have gained : edgeGain [.concat] = 1 := rfl
      simp only [edgeCount, gained, Fragment.edgeCount_concat]
      omega
    | star next inner stack =>
      have gained : edgeGain [.star] = 4 := rfl
      simp only [edgeCount, gained, Fragment.edgeCount_star]
      omega

end Builder

theorem forks_transitionsFrom {low high : Nat} {fragment : Fragment}
    (owned : fragment.Owns low high) (forked : fragment.Forked) (state : Nat) :
    Forks (fragment.toAutomaton.transitionsFrom state) := by
  unfold Automaton.transitionsFrom OrderedTable.valuesAt
  cases found : fragment.toAutomaton.transitions.find? state with
  | none => exact Fragment.forks_silent [] (Nat.zero_le 2)
  | some transitions =>
    have entry := OrderedTable.find?_eq_some_iff.mp found
    rw [Fragment.entries_toAutomaton owned] at entry
    exact forked (state, transitions) entry

theorem transitionsFrom_accept {low high : Nat} {fragment : Fragment}
    (owned : fragment.Owns low high) :
    fragment.toAutomaton.transitionsFrom fragment.accept = [] := by
  apply List.eq_nil_iff_forall_not_mem.mpr
  rintro ⟨symbol, target⟩ edge
  exact Fragment.accept_still owned symbol target edge

structure Shaped (text : List Char) (automaton : Automaton) : Prop where
  states : ∀ state, state ∈ automaton.states ↔
    state < 2 * ((letters text).length + text.count '|' + text.count '*')
  edges : automaton.edgeCount =
    (letters text).length + 4 * text.count '|' + text.count '.' + 4 * text.count '*'
  forks : ∀ state, Forks (automaton.transitionsFrom state)
  entrance : ∀ source symbol, ¬automaton.HasEdge source symbol automaton.start
  exit : ∃ final, automaton.finals.items = [final] ∧ automaton.transitionsFrom final = [] ∧
    ∀ state ∈ automaton.states, ∃ front back,
      automaton.Path automaton.start front state ∧ automaton.Path state back final

/-- An automaton built from postorder has two states for each literal, union and star, numbered from
zero, and four edges for each union and star, one for each literal and concatenation. A state reads
one symbol or forks silently in two at most. Its one final state is left by no edge, its start state
is entered by none, and every state is on the way from the one to the other. -/
theorem shaped_ofPostorder {text : List Char} {automaton : Automaton}
    (built : ofPostorder text = .ok automaton) : Shaped text automaton := by
  obtain ⟨tokens, read, made⟩ := ofPostorder_ok_iff.mp built
  obtain ⟨next, fragment, run, same⟩ := ofTokens_ok_iff.mp made
  subst same
  have owned := owns_of_builds run
  have kept {holds : Fragment → Prop} (kept : Builder.Kept holds) : holds fragment :=
    Builder.holds_builds kept run Builder.Tiles.empty (List.forall_mem_nil _) fragment
      (List.mem_singleton_self _)
  have unions : text.count '|' = tokens.count .union := count_of_read read rfl
  have concats : text.count '.' = tokens.count .concat := count_of_read read rfl
  have stars : text.count '*' = tokens.count .star := count_of_read read rfl
  constructor
  case states =>
    intro state
    have last : next = Builder.stateGain tokens :=
      (Builder.next_builds run).trans (Nat.zero_add _)
    rw [length_letters_of_read read, unions, stars, Fragment.toAutomaton, OrderedSet.mem_ofList,
      owned.members, last]
    exact and_iff_right (Nat.zero_le state)
  case edges =>
    have total := Builder.edges_builds run
    rw [length_letters_of_read read, unions, concats, stars, Automaton.edgeCount,
      Fragment.entries_toAutomaton owned]
    simpa [Builder.fresh, Builder.edgeCount, Builder.edgeGain, Fragment.edgeCount] using total
  case forks => exact forks_transitionsFrom owned (kept Fragment.kept_forked)
  case entrance =>
    intro source symbol edge
    exact (owned.enters source symbol _ ((Fragment.hasEdge_toAutomaton owned).mp edge)).2.2 rfl
  case exit =>
    refine ⟨fragment.accept, OrderedSet.items_ofList (List.nodup_singleton _),
      transitionsFrom_accept owned, fun state member => ?_⟩
    have inside := OrderedSet.mem_ofList.mp member
    obtain ⟨front, before⟩ := kept Fragment.kept_connects state inside
    obtain ⟨back, behind⟩ := kept Fragment.kept_completes state inside
    exact ⟨front, back, before, behind⟩

theorem shaped_ofPostorder_starred :
    ∃ automaton, ofPostorder ['a', 'b', '|', '*', 'c', '.'] = .ok automaton ∧
      Shaped ['a', 'b', '|', '*', 'c', '.'] automaton :=
  ⟨_, rfl, shaped_ofPostorder rfl⟩

end Nfa

end Recognizer
