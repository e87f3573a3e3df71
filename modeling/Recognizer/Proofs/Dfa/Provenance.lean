import Recognizer.Proofs.Automaton.Validity
import Recognizer.Proofs.Dfa.Exploration
import Recognizer.Proofs.Nfa.Stack

/-!
What the states of a deterministic automaton stand for. A state leads on a symbol to the state whose
set is the advance of its own, it accepts when its set holds a final state, and a walk from it keeps
to the sets that the simulation passes through. A walk and a simulation therefore agree on every
word whose foreign symbols lead nowhere, which is every word if the source lacks nothing.
-/

namespace Recognizer.Dfa

section Verdicts

variable {source : Automaton}

theorem subset?_lt {state : Nat} {subset : List Nat}
    (stands : (determinize source).subset? state = some subset) :
    state < (determinize source).subsets.length :=
  (List.getElem?_eq_some_iff.mp stands).1

theorem entries_determinize (source : Automaton) :
    (determinize source).automaton.transitions.entries =
      ((tickets 0 (determinize source).subsets).map fun ticket =>
        (ticket.1, edgesFrom source (determinize source).subsets source.alphabet.items
          ticket.2)).filter fun row => row.2 ≠ [] := by
  have stage := stage_explored source
  change (OrderedTable.ofEntries _).entries = _
  rw [OrderedTable.entries_ofEntries stage.nodup_rows, stage.rows]
  rfl

theorem transitionsFrom_determinize {state : Nat} {subset : List Nat}
    (stands : (determinize source).subset? state = some subset) :
    (determinize source).automaton.transitionsFrom state =
      edgesFrom source (determinize source).subsets source.alphabet.items subset := by
  have only : ∀ values, (state, values) ∈ (determinize source).automaton.transitions.entries →
      values = edgesFrom source (determinize source).subsets source.alphabet.items subset := by
    intro values member
    rw [entries_determinize, List.mem_filter, List.mem_map] at member
    obtain ⟨⟨⟨place, other⟩, ticket, same⟩, _⟩ := member
    cases same
    have found := mem_tickets.mp ticket
    cases found.symm.trans stands
    rfl
  unfold Automaton.transitionsFrom OrderedTable.valuesAt
  cases found : (determinize source).automaton.transitions.find? state with
  | some values => exact only values (OrderedTable.find?_eq_some_iff.mp found)
  | none =>
    -- a state has no entry when its set leads nowhere
    by_cases bare : edgesFrom source (determinize source).subsets source.alphabet.items subset = []
    · rw [bare]
      rfl
    · have entry : (state, edgesFrom source (determinize source).subsets source.alphabet.items
          subset) ∈ (determinize source).automaton.transitions.entries := by
        rw [entries_determinize, List.mem_filter, List.mem_map]
        exact ⟨⟨(state, subset), mem_tickets.mpr stands, rfl⟩, by simpa using bare⟩
      rw [OrderedTable.find?_eq_some_iff.mpr entry] at found
      cases found

theorem find?_edgesFrom (source : Automaton) (known : List (List Nat)) (symbols : List Char)
    (subset : List Nat) (symbol : Char) :
    ((edgesFrom source known symbols subset).find? (·.symbol = some symbol)).map
        Transition.target =
      if symbol ∈ symbols ∧ source.advance subset symbol ≠ [] then
        some (known.idxOf (source.advance subset symbol))
      else none := by
  induction symbols with
  | nil => simp [edgesFrom]
  | cons first rest ih =>
    by_cases stuck : source.advance subset first = []
    · rw [edgesFrom_cons_stuck stuck, ih]
      by_cases same : symbol = first
      · subst same
        simp [stuck]
      · simp [same]
    · rw [edgesFrom_cons_moving stuck]
      by_cases same : symbol = first
      · subst same
        simp [stuck, Transition.reading]
      · have other : first ≠ symbol := Ne.symm same
        simp [same, other, Transition.reading, ih]

theorem next?_determinize {state : Nat} {subset : List Nat}
    (stands : (determinize source).subset? state = some subset) (symbol : Char) :
    (determinize source).automaton.next? state symbol =
      if symbol ∈ source.alphabet ∧ source.advance subset symbol ≠ [] then
        some ((determinize source).subsets.idxOf (source.advance subset symbol))
      else none := by
  unfold Automaton.next?
  rw [transitionsFrom_determinize stands, find?_edgesFrom]
  rfl

/-- A symbol leads to the state that stands for the advance of the set. -/
theorem subset?_next {state : Nat} {subset : List Nat}
    (stands : (determinize source).subset? state = some subset) {symbol : Char}
    (known : symbol ∈ source.alphabet) (moves : source.advance subset symbol ≠ []) :
    ∃ target, (determinize source).automaton.next? state symbol = some target ∧
      (determinize source).subset? target = some (source.advance subset symbol) := by
  have visited : subset ∈ (explored source).known := List.mem_of_getElem? stands
  have covered := (stage_explored source).covered subset visited symbol known moves
  refine ⟨(determinize source).subsets.idxOf (source.advance subset symbol), ?_, ?_⟩
  · rw [next?_determinize stands, if_pos ⟨known, moves⟩]
  · have below := List.idxOf_lt_length_of_mem covered
    change (explored source).known[(explored source).known.idxOf _]? = _
    rw [List.getElem?_eq_getElem below, List.getElem_idxOf below]

theorem isFinal_determinize {state : Nat} {subset : List Nat}
    (stands : (determinize source).subset? state = some subset) :
    (determinize source).automaton.isFinal state = subset.any source.isFinal := by
  have finals : (determinize source).automaton.finals =
      OrderedSet.ofList (((tickets 0 (determinize source).subsets).filter fun ticket =>
        ticket.2.any source.isFinal).map Prod.fst) :=
    congrArg OrderedSet.ofList (stage_explored source).finals
  rw [Bool.eq_iff_iff, Automaton.isFinal, decide_eq_true_eq, finals, OrderedSet.mem_ofList,
    List.mem_map]
  constructor
  · rintro ⟨⟨place, other⟩, member, same⟩
    cases same
    obtain ⟨ticket, accepting⟩ := List.mem_filter.mp member
    cases (mem_tickets.mp ticket).symm.trans stands
    exact accepting
  · intro accepting
    exact ⟨(state, subset), List.mem_filter.mpr ⟨mem_tickets.mpr stands, accepting⟩, rfl⟩

def Contained (source : Automaton) (word : List Char) : Prop :=
  ∀ symbol ∈ word, ∀ subset, source.advance subset symbol ≠ [] → symbol ∈ source.alphabet

theorem contained_of_valid (valid : source.Valid) (word : List Char) : Contained source word := by
  intro symbol _ subset moves
  obtain ⟨target, member⟩ := List.exists_mem_of_ne_nil _ moves
  obtain ⟨before, _, middle, edge, _⟩ := Automaton.mem_advance.mp member
  exact valid.symbol_of_edge edge

theorem contained_of_alphabet {word : List Char}
    (spelled : ∀ symbol ∈ word, symbol ∈ source.alphabet) : Contained source word :=
  fun symbol member _ _ => spelled symbol member

/-- A walk passes through the states that stand for the sets of the simulation, and stops where the
simulation has no active state. -/
theorem walk_determinize {state : Nat} {subset : List Nat} {word : List Char}
    (stands : (determinize source).subset? state = some subset)
    (contained : Contained source word) :
    (∃ target, (determinize source).automaton.walk state word = some target ∧
        (determinize source).subset? target = some (word.foldl source.advance subset)) ∨
      ((determinize source).automaton.walk state word = none ∧
        word.foldl source.advance subset = []) := by
  induction word generalizing state subset with
  | nil => exact Or.inl ⟨state, rfl, stands⟩
  | cons symbol rest ih =>
    have later : Contained source rest :=
      fun other member => contained other (List.mem_cons_of_mem symbol member)
    -- the empty set has no state: the walk stops where the simulation holds no state any more
    by_cases stuck : source.advance subset symbol = []
    · refine Or.inr ⟨?_, ?_⟩
      · simp [Automaton.walk, next?_determinize stands, stuck]
      · rw [List.foldl_cons, stuck, Automaton.foldl_advance_nil]
    · have known := contained symbol List.mem_cons_self subset stuck
      obtain ⟨middle, step, reached⟩ := subset?_next stands known stuck
      have moved : (determinize source).automaton.walk state (symbol :: rest) =
          (determinize source).automaton.walk middle rest := by
        rw [Automaton.walk, step]
      rw [moved, List.foldl_cons]
      exact ih reached later

theorem subset?_start (source : Automaton) :
    (determinize source).subset? (determinize source).automaton.start =
      some (source.silentClosure [source.start]) :=
  (stage_explored source).first

theorem check_eq_accepts {word : List Char} (contained : Contained source word) :
    (determinize source).check word = source.accepts word := by
  unfold check Automaton.check Automaton.accepts Automaton.active
  rcases walk_determinize (subset?_start source) contained with
    ⟨target, walked, stands⟩ | ⟨walked, empty⟩
  · rw [walked]
    exact isFinal_determinize stands
  · rw [walked, empty]
    rfl

end Verdicts

section Examinations

variable {source : Automaton}

theorem mem_states_determinize {state : Nat} :
    state ∈ (determinize source).automaton.states ↔
      ∃ subset, (determinize source).subset? state = some subset := by
  change state ∈ List.range (explored source).known.length ↔ _
  rw [List.mem_range]
  constructor
  · intro below
    exact ⟨_, List.getElem?_eq_getElem below⟩
  · rintro ⟨subset, stands⟩
    exact subset?_lt stands

/-- An entry lists the edges of the set that its source stands for. -/
theorem entry_determinize {entry : Nat × List Transition}
    (member : entry ∈ (determinize source).automaton.transitions.entries) :
    ∃ subset, (determinize source).subset? entry.1 = some subset ∧
      entry.2 = edgesFrom source (determinize source).subsets source.alphabet.items subset := by
  rw [entries_determinize, List.mem_filter, List.mem_map] at member
  obtain ⟨⟨⟨place, subset⟩, ticket, same⟩, _⟩ := member
  subst same
  exact ⟨subset, mem_tickets.mp ticket, rfl⟩

theorem mem_edgesFrom {known : List (List Nat)} {symbols : List Char} {subset : List Nat}
    {transition : Transition} :
    transition ∈ edgesFrom source known symbols subset ↔
      ∃ symbol ∈ symbols, source.advance subset symbol ≠ [] ∧
        transition = Transition.reading symbol (known.idxOf (source.advance subset symbol)) := by
  rw [edgesFrom, List.mem_filterMap]
  refine exists_congr fun symbol => and_congr_right fun _ => ?_
  by_cases stuck : source.advance subset symbol = []
  · simp [stuck]
  · simp [stuck, eq_comm]

theorem valid_determinize (source : Automaton) : (determinize source).automaton.Valid where
  start := mem_states_determinize.mpr ⟨_, subset?_start source⟩
  finals := by
    intro final member
    have listed := OrderedSet.mem_ofList.mp member
    rw [(stage_explored source).finals, List.mem_map] at listed
    obtain ⟨⟨place, subset⟩, ticket, same⟩ := listed
    subst same
    have stands := mem_tickets.mp (List.mem_filter.mp ticket).1
    exact mem_states_determinize.mpr ⟨subset, stands⟩
  sources := by
    intro entry member
    obtain ⟨subset, stands, _⟩ := entry_determinize member
    exact mem_states_determinize.mpr ⟨subset, stands⟩
  targets := by
    intro entry member transition edge
    obtain ⟨subset, stands, same⟩ := entry_determinize member
    rw [same] at edge
    obtain ⟨symbol, symbols, moves, made⟩ := mem_edgesFrom.mp edge
    have visited : subset ∈ (explored source).known := List.mem_of_getElem? stands
    have covered := (stage_explored source).covered subset visited symbol symbols moves
    subst made
    exact List.mem_range.mpr (List.idxOf_lt_length_of_mem covered)
  symbols := by
    intro entry member transition edge symbol reads
    obtain ⟨subset, _, same⟩ := entry_determinize member
    rw [same] at edge
    obtain ⟨letter, symbols, _, made⟩ := mem_edgesFrom.mp edge
    subst made
    cases reads
    exact symbols

theorem nodup_symbols_edgesFrom (source : Automaton) (known : List (List Nat)) {symbols : List Char}
    (distinct : symbols.Nodup) (subset : List Nat) :
    ((edgesFrom source known symbols subset).map Transition.symbol).Nodup := by
  induction symbols with
  | nil => exact List.nodup_nil
  | cons symbol rest ih =>
    rw [List.nodup_cons] at distinct
    by_cases stuck : source.advance subset symbol = []
    · rw [edgesFrom_cons_stuck stuck]
      exact ih distinct.2
    · rw [edgesFrom_cons_moving stuck, List.map_cons, List.nodup_cons]
      refine ⟨?_, ih distinct.2⟩
      intro member
      obtain ⟨transition, edge, same⟩ := List.mem_map.mp member
      obtain ⟨other, later, _, made⟩ := mem_edgesFrom.mp edge
      subst made
      cases same
      exact distinct.1 later

theorem deterministic_determinize (source : Automaton) :
    (determinize source).automaton.Deterministic := by
  intro entry member
  obtain ⟨subset, _, same⟩ := entry_determinize member
  rw [same]
  constructor
  · intro transition edge
    obtain ⟨symbol, _, _, made⟩ := mem_edgesFrom.mp edge
    subst made
    exact Option.some_ne_none symbol
  · exact nodup_symbols_edgesFrom source _ source.alphabet.distinct subset

end Examinations

section Language

open Pattern

theorem check_ofTokens {tokens : List Token} {source : Automaton}
    (built : Nfa.ofTokens tokens = .ok source) (word : List Char) :
    (determinize source).check word = source.accepts word :=
  check_eq_accepts (contained_of_valid (Nfa.valid_ofTokens built) word)

/-- Determinizing an automaton that lacks nothing keeps its verdict on every word, and no automaton
built from postorder lacks anything. -/
theorem check_determinize (source : Automaton) :
    (source.validate = .ok () →
        ∀ word, (determinize source).check word = source.accepts word) ∧
      ∀ text, Nfa.ofPostorder text = .ok source → source.validate = .ok () := by
  constructor
  · intro sound word
    have valid := Automaton.validate_ok_iff.mp sound
    exact check_eq_accepts (contained_of_valid valid word)
  · intro text built
    obtain ⟨tokens, _, made⟩ := Nfa.ofPostorder_ok_iff.mp built
    exact Automaton.validate_ok_iff.mpr (Nfa.valid_ofTokens made)

/-- States out of order, two silent cycles, two final states and an unreachable one. -/
def tangled : Automaton where
  states := OrderedSet.ofList [11, 3, 7, 5]
  alphabet := OrderedSet.ofList ['b', 'a']
  transitions := OrderedTable.ofEntries
    [(7, [.silent 3, .reading 'a' 11]), (3, [.silent 7, .reading 'a' 7, .reading 'b' 11]),
      (11, [.silent 11, .reading 'b' 3])]
  start := 7
  finals := OrderedSet.ofList [11, 3]

theorem check_determinize_tangled :
    tangled.validate = .ok () ∧
      (∀ word, (determinize tangled).check word = tangled.accepts word) ∧
        ∀ source, Nfa.ofPostorder ['a', 'b', '|', '*'] = .ok source → source.validate = .ok () :=
  ⟨rfl, (check_determinize tangled).1 rfl, fun source => (check_determinize source).2 _⟩

end Language

end Recognizer.Dfa
