import Mathlib.Data.List.Perm.Basic
import Recognizer.Automaton.Basic
import Recognizer.Automaton.Report
import Recognizer.Proofs.Automaton.Determinism

/-!
Automata with the same parts. What a walk does depends on the start state, on which states are final
and on the list of edges of each state, not on the order in which sets and sources were filled. So
automata that compare equal answer alike, and their listings differ in the order of lines alone. A
set takes in what is added to it and forgets when and how often, the list of a source keeps its
edges in the order of their arrival, and no addition makes an entry without an edge. So two runs of
additions assemble the same automaton exactly when they add the same members to every set and the
same edges in the same order to every source.
-/

namespace Recognizer

namespace OrderedTable

variable {Key Value : Type} [DecidableEq Key]

theorem mem_keys_iff {table : OrderedTable Key Value} {key : Key} :
    key ∈ table.keys ↔ ∃ values, table.find? key = some values := by
  simp only [find?_eq_some_iff, keys, List.mem_map, Prod.exists, exists_and_right,
    exists_eq_right]

theorem sameEntries_iff [DecidableEq Value] {left right : OrderedTable Key Value} :
    left.sameEntries right = true ↔ ∀ key, left.find? key = right.find? key := by
  simp only [sameEntries, Bool.and_eq_true, List.all_eq_true, decide_eq_true_eq]
  constructor
  · rintro ⟨forth, back⟩ key
    cases found : left.find? key with
    | some values => exact (forth _ (find?_eq_some_iff.mp found)).symm
    | none =>
      cases other : right.find? key with
      | none => rfl
      | some values =>
        -- the right table has no key that the left one lacks
        have known := back _ (find?_eq_some_iff.mp other)
        rw [found] at known
        cases known
  · intro same
    exact ⟨fun entry member => (same entry.1).symm.trans (find?_eq_some_iff.mpr member),
      fun entry member => (same entry.1).trans (find?_eq_some_iff.mpr member)⟩

end OrderedTable

namespace Automaton

variable {left right : Automaton}

structure Alike (left right : Automaton) : Prop where
  states : ∀ state, state ∈ left.states ↔ state ∈ right.states
  alphabet : ∀ symbol, symbol ∈ left.alphabet ↔ symbol ∈ right.alphabet
  transitions : ∀ source, left.transitions.find? source = right.transitions.find? source
  start : left.start = right.start
  finals : ∀ state, state ∈ left.finals ↔ state ∈ right.finals

theorem sameParts_iff : left.sameParts right = true ↔ left.Alike right := by
  simp only [sameParts, Bool.and_eq_true, OrderedSet.sameMembers_iff,
    OrderedTable.sameEntries_iff, decide_eq_true_eq]
  constructor
  · rintro ⟨⟨⟨⟨states, alphabet⟩, transitions⟩, start⟩, finals⟩
    exact ⟨states, alphabet, transitions, start, finals⟩
  · intro alike
    exact ⟨⟨⟨⟨alike.states, alike.alphabet⟩, alike.transitions⟩, alike.start⟩, alike.finals⟩

section Walks

variable (edges : ∀ source, left.transitionsFrom source = right.transitionsFrom source)

include edges

theorem next?_congr (source : Nat) (symbol : Char) :
    left.next? source symbol = right.next? source symbol := by
  rw [next?, next?, edges]

theorem walk_congr (source : Nat) (word : List Char) :
    left.walk source word = right.walk source word := by
  induction word generalizing source with
  | nil => rfl
  | cons symbol rest ih =>
    rw [walk, walk, next?_congr edges]
    cases right.next? source symbol with
    | none => rfl
    | some target => exact ih target

theorem check_congr (start : left.start = right.start)
    (finals : ∀ state, state ∈ left.finals ↔ state ∈ right.finals) (word : List Char) :
    left.check word = right.check word := by
  rw [Bool.eq_iff_iff, check_iff, check_iff]
  simp only [finals, start, walk_congr edges]

theorem deterministic_congr : left.Deterministic ↔ right.Deterministic := by
  simp only [deterministic_iff, edges]

end Walks

theorem isValid_iff {automaton : Automaton} : automaton.isValid = true ↔ automaton.Valid := by
  rw [← validate_ok_iff, isValid, validate]
  cases automaton.violation? <;> simp

def Admits (automaton : Automaton) (edges : List Transition) : Prop :=
  ∀ transition ∈ edges, transition.target ∈ automaton.states ∧
    ∀ symbol, transition.symbol = some symbol → symbol ∈ automaton.alphabet

def SourcesInside (automaton : Automaton) : Prop :=
  ∀ source ∈ automaton.transitions.keys, source ∈ automaton.states

/-- Validity by states: an entry with an empty list only asks for its source. -/
theorem valid_iff {automaton : Automaton} :
    automaton.Valid ↔ automaton.start ∈ automaton.states ∧
      (∀ final ∈ automaton.finals, final ∈ automaton.states) ∧
      automaton.SourcesInside ∧ ∀ source, automaton.Admits (automaton.transitionsFrom source) := by
  have bare : automaton.Admits [] := List.forall_mem_nil _
  have listed : (∀ source, automaton.Admits (automaton.transitionsFrom source)) ↔
      ∀ entry ∈ automaton.transitions.entries, automaton.Admits entry.2 :=
    OrderedTable.forall_valuesAt_iff bare
  rw [listed]
  constructor
  · intro valid
    refine ⟨valid.start, valid.finals, List.forall_mem_map.mpr valid.sources, ?_⟩
    intro entry member transition edge
    exact ⟨valid.targets entry member transition edge, valid.symbols entry member transition edge⟩
  · rintro ⟨start, finals, sources, admits⟩
    exact
      { start := start
        finals := finals
        sources := List.forall_mem_map.mp sources
        targets := fun entry member transition edge => (admits entry member transition edge).1
        symbols := fun entry member transition edge => (admits entry member transition edge).2 }

theorem transitionsFrom_of_find? {source : Nat}
    (same : left.transitions.find? source = right.transitions.find? source) :
    left.transitionsFrom source = right.transitionsFrom source := by
  rw [transitionsFrom, transitionsFrom, OrderedTable.valuesAt, OrderedTable.valuesAt, same]

namespace Alike

theorem edges (alike : left.Alike right) (source : Nat) :
    left.transitionsFrom source = right.transitionsFrom source :=
  transitionsFrom_of_find? (alike.transitions source)

theorem keys (alike : left.Alike right) (source : Nat) :
    source ∈ left.transitions.keys ↔ source ∈ right.transitions.keys := by
  rw [OrderedTable.mem_keys_iff, OrderedTable.mem_keys_iff, alike.transitions]

theorem valid_congr (alike : left.Alike right) : left.Valid ↔ right.Valid := by
  rw [valid_iff, valid_iff]
  simp only [alike.states, alike.finals, alike.start, alike.edges, SourcesInside,
    alike.keys, Admits, alike.alphabet]

theorem edgeLines_perm (alike : left.Alike right) : left.edgeLines.Perm right.edgeLines := by
  have states : left.states.items.Perm right.states.items :=
    (List.perm_ext_iff_of_nodup left.states.distinct right.states.distinct).mpr alike.states
  apply states.flatMap
  intro source _
  rw [alike.edges]

end Alike

end Automaton

end Recognizer

namespace Recognizer.Automaton

inductive Addition where
  | state (state : Nat)
  | symbol (symbol : Char)
  | final (state : Nat)
  | transition (source : Nat) (transition : Transition)
  | silent (source target : Nat)

def add (automaton : Automaton) : Addition → Automaton
  | .state state => automaton.addState state
  | .symbol symbol => automaton.addSymbol symbol
  | .final state => automaton.addFinal state
  | .transition source transition => automaton.addTransition source transition
  | .silent source target => automaton.addSilent source target

def assembled (start : Nat) (additions : List Addition) : Automaton :=
  additions.foldl add (startingAt start)

namespace Addition

def edge? : Addition → Option (Nat × Transition)
  | state _ | symbol _ | final _ => none
  | transition source edge => some (source, edge)
  | silent source target => some (source, .silent target)

def edgesAt (source : Nat) (additions : List Addition) : List Transition :=
  ((additions.filterMap edge?).filter (·.1 = source)).map Prod.snd

theorem edgesAt_append (source : Nat) (front back : List Addition) :
    edgesAt source (front ++ back) = edgesAt source front ++ edgesAt source back := by
  simp only [edgesAt, List.filterMap_append, List.filter_append, List.map_append]

end Addition

open Addition

variable {automaton : Automaton} {additions : List Addition}

section Members

variable {Item : Type} {part : Automaton → OrderedSet Item} {adds : Item → Addition}

/-- What one addition puts into a set, a run puts into it if the addition is among its own. -/
theorem mem_foldl_add
    (step : ∀ automaton addition item,
      item ∈ part (add automaton addition) ↔ item ∈ part automaton ∨ addition = adds item)
    (item : Item) :
    item ∈ part (additions.foldl add automaton) ↔
      item ∈ part automaton ∨ adds item ∈ additions := by
  induction additions generalizing automaton with
  | nil => simp
  | cons addition rest ih => rw [List.foldl_cons, ih, step, List.mem_cons, or_assoc, eq_comm]

theorem mem_states_add (automaton : Automaton) (addition : Addition) (state : Nat) :
    state ∈ (automaton.add addition).states ↔
      state ∈ automaton.states ∨ addition = .state state := by
  cases addition <;> simp [add, addState, addSymbol, addFinal, addTransition, addSilent, eq_comm]

theorem mem_alphabet_add (automaton : Automaton) (addition : Addition) (symbol : Char) :
    symbol ∈ (automaton.add addition).alphabet ↔
      symbol ∈ automaton.alphabet ∨ addition = .symbol symbol := by
  cases addition <;> simp [add, addState, addSymbol, addFinal, addTransition, addSilent, eq_comm]

theorem mem_finals_add (automaton : Automaton) (addition : Addition) (state : Nat) :
    state ∈ (automaton.add addition).finals ↔
      state ∈ automaton.finals ∨ addition = .final state := by
  cases addition <;> simp [add, addState, addSymbol, addFinal, addTransition, addSilent, eq_comm]

end Members

theorem start_foldl_add (automaton : Automaton) (additions : List Addition) :
    (additions.foldl add automaton).start = automaton.start := by
  induction additions generalizing automaton with
  | nil => rfl
  | cons addition rest ih =>
    rw [List.foldl_cons, ih]
    cases addition <;> rfl

section Edges

theorem edgesAt_singleton_of_edge? {addition : Addition} {origin : Nat} {transition : Transition}
    (adds : addition.edge? = some (origin, transition)) (source : Nat) :
    edgesAt source [addition] = if source = origin then [transition] else [] := by
  by_cases same : source = origin
  · simp [edgesAt, adds, same]
  · have other : origin ≠ source := Ne.symm same
    simp [edgesAt, adds, same, other]

theorem transitionsFrom_addTransition (automaton : Automaton) (origin source : Nat)
    (transition : Transition) :
    (automaton.addTransition origin transition).transitionsFrom source =
      automaton.transitionsFrom source ++ if source = origin then [transition] else [] := by
  rw [transitionsFrom, addTransition, OrderedTable.push, OrderedTable.valuesAt_extend]
  by_cases same : source = origin
  · simp [same, transitionsFrom]
  · simp [same, transitionsFrom]

theorem transitionsFrom_add (automaton : Automaton) (addition : Addition) (source : Nat) :
    (automaton.add addition).transitionsFrom source =
      automaton.transitionsFrom source ++ edgesAt source [addition] := by
  cases addition with
  | state | symbol | final => exact (List.append_nil _).symm
  | transition origin transition =>
    rw [edgesAt_singleton_of_edge? rfl]
    exact transitionsFrom_addTransition automaton origin source transition
  | silent origin target =>
    rw [edgesAt_singleton_of_edge? rfl]
    exact transitionsFrom_addTransition automaton origin source (.silent target)

theorem transitionsFrom_foldl_add (automaton : Automaton) (additions : List Addition)
    (source : Nat) :
    (additions.foldl add automaton).transitionsFrom source =
      automaton.transitionsFrom source ++ edgesAt source additions := by
  induction additions generalizing automaton with
  | nil => exact (List.append_nil _).symm
  | cons addition rest ih =>
    rw [List.foldl_cons, ih, transitionsFrom_add, List.append_assoc, ← edgesAt_append,
      List.singleton_append]

def Furnished (automaton : Automaton) : Prop :=
  ∀ source, automaton.transitions.find? source ≠ some []

theorem furnished_addTransition (furnished : automaton.Furnished) (origin : Nat)
    (transition : Transition) : (automaton.addTransition origin transition).Furnished := by
  intro source
  rw [addTransition, OrderedTable.push, OrderedTable.find?_extend]
  split
  · simp
  · exact furnished source

theorem furnished_add (furnished : automaton.Furnished) (addition : Addition) :
    (automaton.add addition).Furnished := by
  cases addition with
  | state | symbol | final => exact furnished
  | transition origin transition => exact furnished_addTransition furnished origin transition
  | silent origin target => exact furnished_addTransition furnished origin (.silent target)

theorem furnished_foldl_add (furnished : automaton.Furnished) (additions : List Addition) :
    (additions.foldl add automaton).Furnished := by
  induction additions generalizing automaton with
  | nil => exact furnished
  | cons addition rest ih => exact ih (furnished_add furnished addition)

/-- Where every entry has an edge, a source without an entry shows in its empty list. -/
theorem find?_of_furnished (furnished : automaton.Furnished) (source : Nat) :
    automaton.transitions.find? source =
      if automaton.transitionsFrom source = [] then none
      else some (automaton.transitionsFrom source) := by
  unfold transitionsFrom OrderedTable.valuesAt
  cases found : automaton.transitions.find? source with
  | none => rfl
  | some edges =>
    have filled : edges ≠ [] := fun bare => furnished source (bare ▸ found)
    simp [filled]

end Edges

theorem furnished_startingAt (start : Nat) : (startingAt start).Furnished := by
  intro source bare
  cases bare

theorem alike_iff_of_furnished {left right : Automaton} (filled : left.Furnished)
    (filledToo : right.Furnished) :
    left.Alike right ↔
      (∀ state, state ∈ left.states ↔ state ∈ right.states) ∧
      (∀ symbol, symbol ∈ left.alphabet ↔ symbol ∈ right.alphabet) ∧
      (∀ state, state ∈ left.finals ↔ state ∈ right.finals) ∧ left.start = right.start ∧
      ∀ source, left.transitionsFrom source = right.transitionsFrom source := by
  constructor
  · intro alike
    exact ⟨alike.states, alike.alphabet, alike.finals, alike.start, alike.edges⟩
  · rintro ⟨states, alphabet, finals, start, edges⟩
    refine ⟨states, alphabet, fun source => ?_, start, finals⟩
    rw [find?_of_furnished filled, find?_of_furnished filledToo, edges]

section Assembled

variable (start : Nat) (additions : List Addition)

theorem mem_states_assembled (state : Nat) :
    state ∈ (assembled start additions).states ↔ state = start ∨ .state state ∈ additions := by
  rw [assembled, mem_foldl_add mem_states_add]
  simp [startingAt]

theorem mem_alphabet_assembled (symbol : Char) :
    symbol ∈ (assembled start additions).alphabet ↔ .symbol symbol ∈ additions := by
  rw [assembled, mem_foldl_add mem_alphabet_add]
  simp [startingAt]

theorem mem_finals_assembled (state : Nat) :
    state ∈ (assembled start additions).finals ↔ .final state ∈ additions := by
  rw [assembled, mem_foldl_add mem_finals_add]
  simp [startingAt]

theorem transitionsFrom_assembled (source : Nat) :
    (assembled start additions).transitionsFrom source = edgesAt source additions :=
  transitionsFrom_foldl_add (startingAt start) additions source

theorem start_assembled : (assembled start additions).start = start :=
  start_foldl_add (startingAt start) additions

theorem furnished_assembled : (assembled start additions).Furnished :=
  furnished_foldl_add (furnished_startingAt start) additions

end Assembled

theorem sameParts_assembled_iff {start : Nat} {left right : List Addition} :
    (assembled start left).sameParts (assembled start right) = true ↔
      (∀ state, state = start ∨ .state state ∈ left ↔ state = start ∨ .state state ∈ right) ∧
      (∀ symbol, .symbol symbol ∈ left ↔ .symbol symbol ∈ right) ∧
      (∀ state, .final state ∈ left ↔ .final state ∈ right) ∧
      ∀ source, edgesAt source left = edgesAt source right := by
  rw [sameParts_iff, alike_iff_of_furnished (furnished_assembled start left)
    (furnished_assembled start right)]
  simp only [mem_states_assembled, mem_alphabet_assembled, mem_finals_assembled,
    transitionsFrom_assembled, start_assembled, true_and]

/-- Runs of additions assemble the same automaton exactly when they agree up to order and
repetition, the order at one source apart. Automata that are the same, however they were made, take
the same steps, accept the same words, pass the same examinations and list the same edges. -/
theorem sameParts_exact :
    (∀ start left right, (assembled start left).sameParts (assembled start right) = true ↔
      (∀ state, state = start ∨ .state state ∈ left ↔ state = start ∨ .state state ∈ right) ∧
      (∀ symbol, .symbol symbol ∈ left ↔ .symbol symbol ∈ right) ∧
      (∀ state, .final state ∈ left ↔ .final state ∈ right) ∧
      ∀ source, edgesAt source left = edgesAt source right) ∧
    ∀ left right : Automaton, left.sameParts right = true →
      (∀ source symbol, left.next? source symbol = right.next? source symbol) ∧
      (∀ word, left.check word = right.check word) ∧ left.isValid = right.isValid ∧
      (left.checkDeterminism = .ok () ↔ right.checkDeterminism = .ok ()) ∧
      (left.describe.drop 5).Perm (right.describe.drop 5) := by
  refine ⟨fun start left right => sameParts_assembled_iff, ?_⟩
  intro left right same
  have alike := sameParts_iff.mp same
  refine ⟨next?_congr alike.edges, check_congr alike.edges alike.start alike.finals, ?_, ?_,
    alike.edgeLines_perm⟩
  · rw [Bool.eq_iff_iff, isValid_iff, isValid_iff]
    exact alike.valid_congr
  · rw [checkDeterminism_ok_iff, checkDeterminism_ok_iff]
    exact deterministic_congr alike.edges

/-- A silent edge, an edge out of the state set from a source that is not in it, and a final state
that is nowhere else. -/
def straying : List Addition :=
  [.state 1, .symbol 'a', .transition 0 (.reading 'a' 1), .silent 1 0, .state 1,
    .transition 0 (.reading 'a' 5), .transition 7 (.reading 'b' 1), .final 1, .final 9]

def strayingToo : List Addition :=
  [.final 9, .transition 7 (.reading 'b' 1), .transition 0 (.reading 'a' 1), .final 1, .silent 1 0,
    .final 9, .transition 0 (.reading 'a' 5), .state 0, .symbol 'a', .state 1]

theorem sameParts_exact_straying :
    (assembled 0 straying).sameParts (assembled 0 strayingToo) = true ∧
      (assembled 0 straying).next? 0 'a' = (assembled 0 strayingToo).next? 0 'a' ∧
      (∀ word, (assembled 0 straying).check word = (assembled 0 strayingToo).check word) ∧
      (assembled 0 straying).isValid = (assembled 0 strayingToo).isValid ∧
      ((assembled 0 straying).checkDeterminism = .ok () ↔
        (assembled 0 strayingToo).checkDeterminism = .ok ()) ∧
      ((assembled 0 straying).describe.drop 5).Perm
        ((assembled 0 strayingToo).describe.drop 5) := by
  have same : (assembled 0 straying).sameParts (assembled 0 strayingToo) = true := by decide
  obtain ⟨steps, verdicts, validity, determinism, lines⟩ := sameParts_exact.2 _ _ same
  exact ⟨same, steps 0 'a', verdicts, validity, determinism, lines⟩

end Recognizer.Automaton
