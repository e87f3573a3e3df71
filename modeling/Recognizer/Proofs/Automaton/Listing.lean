import Recognizer.Proofs.Automaton.Validity
import Recognizer.Proofs.Automaton.Sameness
import Recognizer.Proofs.Nfa.Activity
import Recognizer.Proofs.Text

/-!
Listings are faithful. Nothing in them is quoted, yet every line can be read in one way only: a
number consists of digits, so the first comma ends it; a symbol is one character whichever it is,
and the word for a silent edge is longer; commas between symbols stand at every other place. The
lines of one source stand together in their order, so the listing gives back every list of edges.
-/

namespace Recognizer

namespace Text

/-- A mark that does not occur in front of itself shows where the front ends. -/
theorem append_cons_inj {mark : Char} {front other back rest : List Char} (unmarked : mark ∉ front)
    (unmarkedToo : mark ∉ other) (same : front ++ mark :: back = other ++ mark :: rest) :
    front = other ∧ back = rest := by
  induction front generalizing other with
  | nil =>
    cases other with
    | nil => exact ⟨rfl, (List.cons.inj same).2⟩
    | cons character others =>
      exact absurd ((List.cons.inj same).1 ▸ List.mem_cons_self) unmarkedToo
  | cons first others ih =>
    cases other with
    | nil => exact absurd ((List.cons.inj same).1 ▸ List.mem_cons_self) unmarked
    | cons character later =>
      obtain ⟨head, tail⟩ := List.cons.inj same
      obtain ⟨fronts, backs⟩ := ih (fun member => unmarked (List.mem_cons_of_mem _ member))
        (fun member => unmarkedToo (List.mem_cons_of_mem _ member)) tail
      exact ⟨List.cons_eq_cons.mpr ⟨head, fronts⟩, backs⟩

theorem toList_toString (number : Nat) : (toString number).toList = Nat.toDigits 10 number :=
  Nat.toList_repr

theorem comma_not_mem_toDigits (number : Nat) : ',' ∉ Nat.toDigits 10 number := by
  intro member
  have digit := Nat.isDigit_of_mem_toDigits (by decide) (by decide) member
  exact absurd digit (by decide)

/-- The written form of a list, by the written forms of its items. -/
theorem toList_listed {Item : Type} {written : Item → String} {letters : Item → List Char}
    (spelled : ∀ item, (written item).toList = letters item) (items : List Item) :
    (listed (items.map written)).toList = [','].intercalate (items.map letters) := by
  have parts : (items.map written).map String.toList = items.map letters := by
    rw [List.map_map]
    exact List.map_congr_left fun item _ => spelled item
  rw [listed, String.toList_intercalate, parts]
  rfl

/-- Commas cut a list of numbers into its items, and no number is written without a digit. -/
theorem splitOn_listed (numbers : List Nat) :
    ((listed (numbers.map toString)).toList.splitOn ',').filter (· ≠ []) =
      numbers.map (Nat.toDigits 10) := by
  rw [toList_listed toList_toString]
  cases numbers with
  | nil => rfl
  | cons first rest =>
    rw [List.splitOn_intercalate]
    · exact List.filter_eq_self.mpr
        (List.forall_mem_map.mpr fun number _ => decide_eq_true Nat.toDigits_ne_nil)
    · exact List.forall_mem_map.mpr fun number _ => comma_not_mem_toDigits number
    · exact List.cons_ne_nil _ _

theorem listed_numbers_inj {left right : List Nat}
    (same : listed (left.map toString) = listed (right.map toString)) : left = right := by
  have cut := congrArg (fun text => (text.toList.splitOn ',').filter (· ≠ [])) same
  simp only [splitOn_listed] at cut
  exact List.map_injective_iff.mpr (fun _ _ => toDigits_inj) cut

def everyOther : List Char → List Char
  | [] => []
  | [symbol] => [symbol]
  | symbol :: _ :: rest => symbol :: everyOther rest

/-- The commas of a list of symbols are known by their places. -/
theorem everyOther_listed (symbols : List Char) :
    everyOther (listed (symbols.map String.singleton)).toList = symbols := by
  rw [toList_listed String.toList_singleton]
  induction symbols with
  | nil => rfl
  | cons first rest ih =>
    cases rest with
    | nil => rfl
    | cons second later =>
      rw [List.map_cons, List.map_cons, List.intercalate_cons_cons]
      exact congrArg (first :: ·) ih

theorem listed_symbols_inj {left right : List Char}
    (same : listed (left.map String.singleton) = listed (right.map String.singleton)) :
    left = right := by
  have read := congrArg (fun text => everyOther text.toList) same
  simpa only [everyOther_listed] using read

end Text

namespace Automaton

theorem label_append_inj {first second : Transition} {rest other : List Char}
    (same : first.label.toList ++ ')' :: rest = second.label.toList ++ ')' :: other) :
    first.symbol = second.symbol ∧ rest = other := by
  obtain ⟨read, target⟩ := first
  obtain ⟨readToo, targetToo⟩ := second
  cases read with
  | none =>
    cases readToo with
    | none => exact ⟨rfl, (List.cons.inj (List.append_cancel_left same)).2⟩
    | some symbol => simp [Transition.label, silentName] at same
  | some symbol =>
    cases readToo with
    | none => simp [Transition.label, silentName] at same
    | some symbol => simpa [Transition.label] using same

theorem toList_edgeLine (source : Nat) (transition : Transition) :
    (edgeLine source transition).toList =
      'p' :: '(' :: (Nat.toDigits 10 source ++ ',' :: ' ' :: (transition.label.toList ++
        ')' :: ' ' :: '-' :: '>' :: ' ' :: Nat.toDigits 10 transition.target)) := by
  simp [edgeLine, toString]

theorem edgeLine_inj {source other : Nat} {first second : Transition}
    (same : edgeLine source first = edgeLine other second) : source = other ∧ first = second := by
  have letters := congrArg String.toList same
  rw [toList_edgeLine, toList_edgeLine] at letters
  obtain ⟨sources, after⟩ := Text.append_cons_inj (Text.comma_not_mem_toDigits source)
    (Text.comma_not_mem_toDigits other) (List.cons.inj (List.cons.inj letters).2).2
  obtain ⟨symbols, ends⟩ := label_append_inj (List.cons.inj after).2
  have targets := Text.toDigits_inj ((List.append_right_inj " -> ".toList).mp ends)
  obtain ⟨read, target⟩ := first
  obtain ⟨readToo, targetToo⟩ := second
  exact ⟨Text.toDigits_inj sources, by rw [Transition.mk.injEq]; exact ⟨symbols, targets⟩⟩

def sourced (states : List Nat) (edges : Nat → List Transition) : List (Nat × Transition) :=
  states.flatMap fun source => (edges source).map (source, ·)

theorem edgeLines_eq (automaton : Automaton) :
    automaton.edgeLines = (sourced automaton.states.items automaton.transitionsFrom).map
      fun edge => edgeLine edge.1 edge.2 := by
  simp only [edgeLines, sourced, List.map_flatMap, List.map_map, Function.comp_def]

theorem filter_sourced (states : List Nat) (edges : Nat → List Transition) (state : Nat) :
    (sourced states edges).filter (·.1 = state) = sourced (states.filter (· = state)) edges := by
  induction states with
  | nil => rfl
  | cons first rest ih =>
    unfold sourced at ih ⊢
    rw [List.flatMap_cons, List.filter_append, ih]
    by_cases same : first = state
    · simp [same]
    · simp [same]

/-- The edges of one source stand together and keep their order. -/
theorem edges_of_sourced {states : List Nat} (distinct : states.Nodup) {state : Nat}
    (member : state ∈ states) (edges : Nat → List Transition) :
    ((sourced states edges).filter (·.1 = state)).map Prod.snd = edges state := by
  have single : states.filter (· = state) = [state] := by
    rw [List.filter_eq, List.count_eq_one_of_mem distinct member]
    rfl
  rw [filter_sourced, single, sourced, List.flatMap_singleton, List.map_map]
  exact List.map_id _

theorem transitionsFrom_of_edgeLines {left right : Automaton} (states : left.states = right.states)
    (same : left.edgeLines = right.edgeLines) {state : Nat} (member : state ∈ left.states) :
    left.transitionsFrom state = right.transitionsFrom state := by
  rw [edgeLines_eq, edgeLines_eq, ← states] at same
  have edges := List.map_injective_iff.mpr (fun edge other lines => by
    obtain ⟨sources, transitions⟩ := edgeLine_inj lines
    exact Prod.ext sources transitions) same
  have distinct := left.states.distinct
  rw [← edges_of_sourced distinct member left.transitionsFrom, edges,
    edges_of_sourced distinct member]

theorem transitionsFrom_of_not_mem {automaton : Automaton} (inside : automaton.SourcesInside)
    {state : Nat} (outside : state ∉ automaton.states) : automaton.transitionsFrom state = [] := by
  cases found : automaton.transitions.find? state with
  | none => rw [transitionsFrom, OrderedTable.valuesAt, found, Option.getD_none]
  | some edges => exact absurd (inside state (OrderedTable.mem_keys_iff.mpr ⟨edges, found⟩)) outside

theorem parts_of_describe {left right : Automaton} (same : left.describe = right.describe) :
    left.states = right.states ∧ left.alphabet = right.alphabet ∧ left.start = right.start ∧
      left.finals = right.finals ∧ left.edgeLines = right.edgeLines := by
  simp only [describe, List.cons_append, List.nil_append, List.cons.injEq, true_and] at same
  obtain ⟨states, symbols, start, finals, lines⟩ := same
  refine ⟨OrderedSet.eq_of_items ?_, OrderedSet.eq_of_items ?_, ?_, OrderedSet.eq_of_items ?_,
    lines⟩
  · exact Text.listed_numbers_inj ((String.append_right_inj _).mp states)
  · exact Text.listed_symbols_inj ((String.append_right_inj _).mp symbols)
  · rw [← String.toList_inj, String.toList_append, String.toList_append,
      Text.toList_toString, Text.toList_toString] at start
    exact Text.toDigits_inj ((List.append_right_inj _).mp start)
  · exact Text.listed_numbers_inj ((String.append_right_inj _).mp finals)

theorem accepts_congr {left right : Automaton}
    (edges : ∀ source, left.transitionsFrom source = right.transitionsFrom source)
    (start : left.start = right.start) (finals : left.finals = right.finals) (word : List Char) :
    left.accepts word = right.accepts word := by
  have listed : ∀ before symbol after, left.HasEdge before symbol after ↔
      right.HasEdge before symbol after := by
    intro before symbol after
    rw [HasEdge, HasEdge, edges]
  have paths : ∀ target, left.Path right.start word target ↔ right.Path right.start word target :=
    fun target => ⟨Path.mono fun before symbol after => (listed before symbol after).mp,
      Path.mono fun before symbol after => (listed before symbol after).mpr⟩
  rw [Bool.eq_iff_iff, accepts_iff, accepts_iff, start, finals]
  simp only [paths]

/-- An automaton whose sources are states can be read off its listing, so two of them with the same
listing give the same verdicts, read with silent edges or without, and are both valid or neither. -/
theorem describe_faithful {left right : Automaton} (inside : left.SourcesInside)
    (insideToo : right.SourcesInside) (same : left.describe = right.describe) :
    left.states = right.states ∧ left.alphabet = right.alphabet ∧ left.finals = right.finals ∧
      left.start = right.start ∧
      (∀ state, left.transitionsFrom state = right.transitionsFrom state) ∧
      (∀ word, left.check word = right.check word) ∧
      (∀ word, left.accepts word = right.accepts word) ∧
      (left.validate = .ok () ↔ right.validate = .ok ()) := by
  obtain ⟨states, alphabet, start, finals, lines⟩ := parts_of_describe same
  have edges : ∀ state, left.transitionsFrom state = right.transitionsFrom state := by
    intro state
    by_cases member : state ∈ left.states
    · exact transitionsFrom_of_edgeLines states lines member
    · have outside : state ∉ right.states := states ▸ member
      rw [transitionsFrom_of_not_mem inside member, transitionsFrom_of_not_mem insideToo outside]
  have verdicts := check_congr edges start fun _ => finals ▸ Iff.rfl
  have validity : left.validate = .ok () ↔ right.validate = .ok () := by
    have sources : left.SourcesInside ↔ right.SourcesInside := iff_of_true inside insideToo
    rw [validate_ok_iff, validate_ok_iff, valid_iff, valid_iff]
    simp only [sources, Admits, states, alphabet, finals, start, edges]
  exact ⟨states, alphabet, finals, start, edges, verdicts, accepts_congr edges start finals,
    validity⟩

/-- Symbols that look like the marks of a listing, in an automaton that lacks a target. -/
def marked : Automaton where
  states := OrderedSet.ofList [10, 1, 0]
  alphabet := OrderedSet.ofList [',', ')', 'l', '1', ' ']
  transitions := OrderedTable.ofEntries
    [(1, [.reading ',' 10, .silent 1]), (10, [.reading ')' 0, .reading 'l' 11])]
  start := 1
  finals := OrderedSet.ofList [0, 10]

def markedToo : Automaton :=
  { marked with
    transitions := OrderedTable.ofEntries
      [(10, [.reading ')' 0, .reading 'l' 11]), (0, []), (1, [.reading ',' 10, .silent 1])] }

theorem describe_faithful_marked :
    marked.SourcesInside ∧ markedToo.SourcesInside ∧ marked.describe = markedToo.describe ∧
      marked.states = markedToo.states ∧ marked.alphabet = markedToo.alphabet ∧
      marked.finals = markedToo.finals ∧ marked.start = markedToo.start ∧
      (∀ state, marked.transitionsFrom state = markedToo.transitionsFrom state) ∧
      (∀ word, marked.check word = markedToo.check word) ∧
      (∀ word, marked.accepts word = markedToo.accepts word) ∧
      (marked.validate = .ok () ↔ markedToo.validate = .ok ()) := by
  have inside : marked.SourcesInside := by unfold SourcesInside; decide
  have insideToo : markedToo.SourcesInside := by unfold SourcesInside; decide
  have same : marked.describe = markedToo.describe := by rfl
  exact ⟨inside, insideToo, same, describe_faithful inside insideToo same⟩

end Automaton

end Recognizer
