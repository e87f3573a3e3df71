import Mathlib.Data.List.Nodup
import Recognizer.Proofs.Automaton.Validity
import Recognizer.Proofs.Nfa.Activity

/-!
Paths edge by edge. A route lists the edges of a path in the order in which they are taken, and it
spells the symbols that stand on them. The simulation accepts a word when some route to a final
state spells it. A walk takes the first matching edge and never a silent one, so what it finds is
always a route that reads at every edge. The converse needs determinism: where no edge is silent and
no state lists two edges on one symbol, a path has no edge to take but the one the walk takes.
-/

namespace Recognizer.Automaton

section Routes

def Leads (automaton : Automaton) : Nat → List Transition → Nat → Prop
  | source, [], target => source = target
  | source, transition :: rest, target =>
    transition ∈ automaton.transitionsFrom source ∧ automaton.Leads transition.target rest target

def spelled (route : List Transition) : List Char := route.filterMap Transition.symbol

variable {automaton : Automaton} {source target : Nat} {word : List Char}

theorem exists_route (path : automaton.Path source word target) :
    ∃ route, automaton.Leads source route target ∧ spelled route = word := by
  induction path with
  | here state => exact ⟨[], rfl, rfl⟩
  | @silent source middle target word edge _ ih =>
    -- the route grows by an edge that the word does not show
    obtain ⟨rest, leads, spells⟩ := ih
    exact ⟨Transition.silent middle :: rest, ⟨edge, leads⟩, spells⟩
  | @reading source middle target symbol word edge _ ih =>
    obtain ⟨rest, leads, spells⟩ := ih
    exact ⟨Transition.reading symbol middle :: rest, ⟨edge, leads⟩, congrArg (symbol :: ·) spells⟩

theorem path_of_route {route : List Transition} (leads : automaton.Leads source route target) :
    automaton.Path source (spelled route) target := by
  induction route generalizing source with
  | nil =>
    cases leads
    exact Path.here _
  | cons transition rest ih =>
    obtain ⟨symbol, middle⟩ := transition
    cases symbol with
    | none => exact Path.silent leads.1 (ih leads.2)
    | some symbol => exact Path.reading leads.1 (ih leads.2)

theorem path_iff_route :
    automaton.Path source word target ↔
      ∃ route, automaton.Leads source route target ∧ spelled route = word := by
  constructor
  · exact exists_route
  · rintro ⟨route, leads, spells⟩
    exact spells ▸ path_of_route leads

/-- Where no state is active any more, the rest of the word need not be read. -/
theorem accepts_of_inactive (inactive : automaton.active word = []) (rest : List Char) :
    automaton.accepts (word ++ rest) = false := by
  -- an empty set of states stays empty whatever is read
  have still : automaton.active (word ++ rest) = [] := by
    rw [active, List.foldl_append]
    change rest.foldl automaton.advance (automaton.active word) = []
    rw [inactive, foldl_advance_nil]
  rw [accepts, still]
  rfl

/-- The simulation accepts the words of the routes to final states, and it may stop as soon as no
state is active. -/
theorem accepts_exact (automaton : Automaton) (word : List Char) :
    (automaton.accepts word = true ↔
      ∃ final ∈ automaton.finals, ∃ route, automaton.Leads automaton.start route final ∧
        spelled route = word) ∧
      (automaton.active word = [] → ∀ rest, automaton.accepts (word ++ rest) = false) := by
  constructor
  · simp only [accepts_iff, path_iff_route]
  · exact accepts_of_inactive

/-- The route stands twice at the start state before it reads, and the word behind `b` is lost. -/
theorem accepts_exact_looped :
    (looped.accepts ['a'] = true ↔
      ∃ final ∈ looped.finals, ∃ route, looped.Leads looped.start route final ∧
        spelled route = ['a']) ∧
      looped.Leads looped.start
        [Transition.silent 1, Transition.silent 0, Transition.silent 1,
          Transition.reading 'a' 2] 2 ∧
      looped.active ['b'] = [] ∧ ∀ rest, looped.accepts ('b' :: rest) = false := by
  have inactive : looped.active ['b'] = [] := by decide +kernel
  refine ⟨(accepts_exact looped ['a']).1, ?_, inactive, (accepts_exact looped ['b']).2 inactive⟩
  simp only [Leads]
  decide

end Routes

section Walks

/-- No edge of the list is silent, and no two of them read one symbol. -/
def Unforked (transitions : List Transition) : Prop :=
  (∀ transition ∈ transitions, transition.symbol ≠ none) ∧
    transitions.Pairwise fun first second => first.symbol ≠ second.symbol

variable {automaton : Automaton} {source target : Nat} {word : List Char}

theorem unforked_iff_nodup {transitions : List Transition} :
    Unforked transitions ↔ (∀ transition ∈ transitions, transition.symbol ≠ none) ∧
      (transitions.map Transition.symbol).Nodup := by
  rw [Unforked, List.Nodup, List.pairwise_map]

theorem deterministic_iff :
    automaton.Deterministic ↔ ∀ source, Unforked (automaton.transitionsFrom source) := by
  have bare : Unforked [] := ⟨List.forall_mem_nil _, List.Pairwise.nil⟩
  unfold Deterministic
  simp only [← unforked_iff_nodup]
  exact (OrderedTable.forall_valuesAt_iff bare).symm

namespace Deterministic

theorem not_silent (deterministic : automaton.Deterministic) :
    ¬ automaton.HasEdge source none target := by
  intro edge
  exact (deterministic_iff.mp deterministic source).1 _ edge rfl

/-- The only edge on a symbol is the first one. -/
theorem next?_of_edge (deterministic : automaton.Deterministic) {symbol : Char}
    (edge : automaton.HasEdge source (some symbol) target) :
    automaton.next? source symbol = some target := by
  have distinct := (unforked_iff_nodup.mp (deterministic_iff.mp deterministic source)).2
  cases found : automaton.next? source symbol with
  | none =>
    rw [next?, Option.map_eq_none_iff, List.find?_eq_none] at found
    exact absurd (decide_eq_true rfl) (found _ edge)
  | some other =>
    -- both edges are listed under one symbol, so they are the same
    have same := List.inj_on_of_nodup_map distinct (hasEdge_of_next? found) edge rfl
    exact congrArg (some ∘ Transition.target) same

theorem walk_of_path (deterministic : automaton.Deterministic)
    (path : automaton.Path source word target) : automaton.walk source word = some target := by
  induction path with
  | here state => rfl
  | silent edge _ _ => exact absurd edge deterministic.not_silent
  | reading edge _ ih =>
    -- the edge of the path is the one that the walk looks up
    rw [walk, deterministic.next?_of_edge edge]
    exact ih

end Deterministic

/-- A walk reads a symbol at every edge. -/
theorem route_of_walk (walked : automaton.walk source word = some target) :
    ∃ route, automaton.Leads source route target ∧
      route.map Transition.symbol = word.map some := by
  induction word generalizing source with
  | nil =>
    cases walked
    exact ⟨[], rfl, rfl⟩
  | cons symbol rest ih =>
    unfold walk at walked
    cases found : automaton.next? source symbol with
    | none => simp [found] at walked
    | some middle =>
      rw [found] at walked
      obtain ⟨route, leads, reads⟩ := ih walked
      exact ⟨Transition.reading symbol middle :: route, ⟨hasEdge_of_next? found, leads⟩,
        congrArg (some symbol :: ·) reads⟩

theorem check_of_deterministic (deterministic : automaton.Deterministic) (word : List Char) :
    automaton.check word = true ↔
      ∃ final ∈ automaton.finals, automaton.Path automaton.start word final := by
  rw [check_iff]
  constructor
  · rintro ⟨final, accepting, walked⟩
    exact ⟨final, accepting, path_of_walk walked⟩
  · rintro ⟨final, accepting, path⟩
    exact ⟨final, accepting, deterministic.walk_of_path path⟩

/-- The examination of determinism asks for no silent edge and for no two edges of one state on one
symbol. It makes the check of a word exact; without it the check still accepts no word that is not
read edge by edge on the way to a final state. -/
theorem check_exact (automaton : Automaton) :
    (automaton.checkDeterminism = .ok () ↔
      ∀ source, Unforked (automaton.transitionsFrom source)) ∧
      (automaton.checkDeterminism = .ok () → ∀ word, automaton.check word = true ↔
        ∃ final ∈ automaton.finals, ∃ route, automaton.Leads automaton.start route final ∧
          spelled route = word) ∧
      ∀ word, automaton.check word = true →
        ∃ final ∈ automaton.finals, ∃ route, automaton.Leads automaton.start route final ∧
          route.map Transition.symbol = word.map some := by
  refine ⟨checkDeterminism_ok_iff.trans deterministic_iff, ?_, ?_⟩
  · intro examined word
    have deterministic := checkDeterminism_ok_iff.mp examined
    simp only [check_of_deterministic deterministic, path_iff_route]
  · intro word accepted
    obtain ⟨final, accepting, walked⟩ := check_iff.mp accepted
    exact ⟨final, accepting, route_of_walk walked⟩

/-- An edge out of the state set, a symbol outside the alphabet and a source without edges. -/
def detour : Automaton where
  states := OrderedSet.ofList [0, 1, 3]
  alphabet := OrderedSet.ofList ['a']
  transitions := OrderedTable.ofEntries
    [(0, [.reading 'a' 1, .reading 'b' 7]), (7, [.reading 'a' 0]), (3, [])]
  start := 0
  finals := OrderedSet.ofList [1]

theorem check_exact_detour :
    detour.checkDeterminism = .ok () ∧
      (∀ word, detour.check word = true ↔
        ∃ final ∈ detour.finals, ∃ route, detour.Leads detour.start route final ∧
          spelled route = word) ∧
      detour.check ['b', 'a', 'a'] = true ∧
      ∃ final ∈ detour.finals, ∃ route, detour.Leads detour.start route final ∧
        route.map Transition.symbol = ['b', 'a', 'a'].map some :=
  ⟨rfl, (check_exact detour).2.1 rfl, rfl, (check_exact detour).2.2 ['b', 'a', 'a'] rfl⟩

/-- With two edges on one symbol the walk is committed to the first. -/
example :
    let forked := { detour with
      transitions := OrderedTable.ofEntries [(0, [.reading 'a' 7, .reading 'a' 1])] }
    forked.check ['a'] = false ∧ forked.accepts ['a'] = true := by
  decide +kernel

end Walks

end Recognizer.Automaton
