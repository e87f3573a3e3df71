import Recognizer.Automaton.Basic
import Recognizer.Automaton.Report

/-!
What the two examinations of an automaton ask for. An examination reports nothing exactly when
every condition holds. Of an automaton that lacks nothing, paths keep to the state set and walks to
the alphabet. Where two automata have the same edges in a region, a path of the one that starts
there is a path of the other until it leaves by the region's exit.
-/

namespace Recognizer.Automaton

/-- From every state some word leads to a final state. -/
def Completed (automaton : Automaton) : Prop :=
  ∀ state ∈ automaton.states, ∃ word, ∃ final ∈ automaton.finals, automaton.Path state word final

namespace Path

variable {whole part : Automaton} {source target : Nat} {word : List Char}

theorem mono
    (edges : ∀ before symbol after, part.HasEdge before symbol after →
      whole.HasEdge before symbol after)
    (path : part.Path source word target) : whole.Path source word target := by
  induction path with
  | here state => exact here state
  | silent edge _ ih => exact silent (edges _ _ _ edge) ih
  | reading edge _ ih => exact reading (edges _ _ _ edge) ih

theorem stuck (still : ∀ symbol after, ¬ whole.HasEdge source symbol after)
    (path : whole.Path source word target) : word = [] := by
  cases path with
  | here => rfl
  | silent edge _ => exact absurd edge (still _ _)
  | reading edge _ => exact absurd edge (still _ _)

/-- A word is spelled edge by edge. -/
theorem edge_of_mem {symbol : Char} (path : whole.Path source word target)
    (member : symbol ∈ word) : ∃ before after, whole.HasEdge before (some symbol) after := by
  induction path with
  | here => cases member
  | silent _ _ ih => exact ih member
  | reading edge _ ih =>
    rcases List.mem_cons.mp member with same | later
    · subst same
      exact ⟨_, _, edge⟩
    · exact ih later

theorem confined (region : Nat → Prop)
    (inside : ∀ before symbol after, region before → whole.HasEdge before symbol after →
      part.HasEdge before symbol after ∧ region after)
    (path : whole.Path source word target) (starts : region source) :
    part.Path source word target := by
  induction path with
  | here state => exact here state
  | silent edge _ ih =>
    obtain ⟨kept, stays⟩ := inside _ _ _ starts edge
    exact silent kept (ih stays)
  | reading edge _ ih =>
    obtain ⟨kept, stays⟩ := inside _ _ _ starts edge
    exact reading kept (ih stays)

/-- The front of the word is read on the way to the exit, the back from there on. -/
theorem escape (region : Nat → Prop) {exit : Nat}
    (inside : ∀ before symbol after, region before → before ≠ exit →
      whole.HasEdge before symbol after → part.HasEdge before symbol after ∧ region after)
    (path : whole.Path source word target) (starts : region source) (leaves : ¬ region target) :
    ∃ front back, word = front ++ back ∧ part.Path source front exit ∧
      whole.Path exit back target := by
  induction path with
  | here => exact absurd starts leaves
  | @silent source middle target word edge path ih =>
    -- the path is cut where it first stands at the exit
    by_cases last : source = exit
    · subst last
      exact ⟨[], word, rfl, here source, silent edge path⟩
    · obtain ⟨kept, stays⟩ := inside _ _ _ starts last edge
      obtain ⟨front, back, split, first, rest⟩ := ih stays leaves
      exact ⟨front, back, split, silent kept first, rest⟩
  | @reading source middle target symbol word edge path ih =>
    by_cases last : source = exit
    · subst last
      exact ⟨[], symbol :: word, rfl, here source, reading edge path⟩
    · obtain ⟨kept, stays⟩ := inside _ _ _ starts last edge
      obtain ⟨front, back, split, first, rest⟩ := ih stays leaves
      exact ⟨symbol :: front, back, congrArg (symbol :: ·) split, reading kept first, rest⟩

end Path

structure Valid (automaton : Automaton) : Prop where
  start : automaton.start ∈ automaton.states
  finals : ∀ final ∈ automaton.finals, final ∈ automaton.states
  sources : ∀ entry ∈ automaton.transitions.entries, entry.1 ∈ automaton.states
  targets : ∀ entry ∈ automaton.transitions.entries, ∀ transition ∈ entry.2,
    transition.target ∈ automaton.states
  symbols : ∀ entry ∈ automaton.transitions.entries, ∀ transition ∈ entry.2,
    ∀ symbol, transition.symbol = some symbol → symbol ∈ automaton.alphabet

/-- No edge is silent, and no state has two edges on one symbol, not even to one target. -/
def Deterministic (automaton : Automaton) : Prop :=
  ∀ entry ∈ automaton.transitions.entries,
    (∀ transition ∈ entry.2, transition.symbol ≠ none) ∧ (entry.2.map Transition.symbol).Nodup

variable {automaton : Automaton}

theorem transitionConditions_hold_iff {source : Nat} {transition : Transition} :
    (∀ condition ∈ automaton.transitionConditions source transition, condition.holds = true) ↔
      transition.target ∈ automaton.states ∧
        ∀ symbol, transition.symbol = some symbol → symbol ∈ automaton.alphabet := by
  obtain ⟨symbol, target⟩ := transition
  cases symbol <;> simp [transitionConditions]

theorem entryConditions_hold_iff {entry : Nat × List Transition} :
    (∀ condition ∈ automaton.entryConditions entry, condition.holds = true) ↔
      entry.1 ∈ automaton.states ∧ ∀ transition ∈ entry.2,
        transition.target ∈ automaton.states ∧
          ∀ symbol, transition.symbol = some symbol → symbol ∈ automaton.alphabet := by
  simp only [entryConditions, List.forall_mem_cons, decide_eq_true_eq, List.forall_mem_flatMap,
    transitionConditions_hold_iff]

theorem conditions_hold_iff :
    (∀ condition ∈ automaton.conditions, condition.holds = true) ↔
      automaton.start ∈ automaton.states ∧ (∀ final ∈ automaton.finals, final ∈ automaton.states) ∧
        ∀ entry ∈ automaton.transitions.entries, entry.1 ∈ automaton.states ∧
          ∀ transition ∈ entry.2, transition.target ∈ automaton.states ∧
            ∀ symbol, transition.symbol = some symbol → symbol ∈ automaton.alphabet := by
  simp only [conditions, List.cons_append, List.forall_mem_cons, decide_eq_true_eq,
    List.forall_mem_append, List.forall_mem_map, List.forall_mem_flatMap,
    entryConditions_hold_iff, OrderedSet.mem_items]

theorem validate_ok_iff : automaton.validate = .ok () ↔ automaton.Valid := by
  have silent : automaton.validate = .ok () ↔ automaton.violation? = none := by
    unfold validate
    cases automaton.violation? <;> simp
  rw [silent, violation?_eq_none_iff, conditions_hold_iff]
  constructor
  · rintro ⟨start, finals, entries⟩
    exact
      { start := start
        finals := finals
        sources := fun entry member => (entries entry member).1
        targets := fun entry member transition edge =>
          ((entries entry member).2 transition edge).1
        symbols := fun entry member transition edge =>
          ((entries entry member).2 transition edge).2 }
  · intro valid
    refine ⟨valid.start, valid.finals, fun entry member => ⟨valid.sources entry member, ?_⟩⟩
    intro transition edge
    exact ⟨valid.targets entry member transition edge, valid.symbols entry member transition edge⟩

theorem conflict?_eq_none_iff {source : Nat} {earlier : List Char}
    {transitions : List Transition} :
    conflict? source earlier transitions = none ↔
      (∀ transition ∈ transitions, transition.symbol ≠ none) ∧
        (transitions.map Transition.symbol).Nodup ∧
        ∀ symbol ∈ earlier, some symbol ∉ transitions.map Transition.symbol := by
  induction transitions generalizing earlier with
  | nil => simp [conflict?]
  | cons transition rest ih =>
    obtain ⟨symbol, target⟩ := transition
    cases symbol with
    | none => simp [conflict?]
    | some symbol =>
      by_cases repeated : symbol ∈ earlier
      · simp only [conflict?, repeated, if_true, reduceCtorEq, false_iff]
        rintro ⟨_, _, fresh⟩
        exact fresh symbol repeated (by simp)
      · simp only [conflict?, repeated, if_false, ih, List.forall_mem_cons, List.map_cons,
          List.nodup_cons]
        constructor
        · rintro ⟨reads, distinct, head, tail⟩
          refine ⟨⟨by simp, reads⟩, ⟨head, distinct⟩, ?_⟩
          intro other known again
          rcases List.mem_cons.mp again with same | later
          · cases same
            exact repeated known
          · exact tail other known later
        · rintro ⟨⟨_, reads⟩, ⟨head, distinct⟩, fresh⟩
          refine ⟨reads, distinct, head, ?_⟩
          intro other known later
          exact fresh other known (List.mem_cons_of_mem _ later)

theorem checkDeterminism_ok_iff :
    automaton.checkDeterminism = .ok () ↔ automaton.Deterministic := by
  have silent : automaton.checkDeterminism = .ok () ↔
      automaton.transitions.entries.findSome? (fun entry => conflict? entry.1 [] entry.2) =
        none := by
    unfold checkDeterminism
    cases automaton.transitions.entries.findSome? _ <;> simp
  rw [silent, List.findSome?_eq_none_iff]
  simp only [conflict?_eq_none_iff, Deterministic, List.not_mem_nil, false_imp_iff, implies_true,
    and_true]

namespace Valid

theorem target_of_edge (valid : automaton.Valid) {source target : Nat} {symbol : Option Char}
    (edge : automaton.HasEdge source symbol target) : target ∈ automaton.states := by
  obtain ⟨transitions, entry, listed⟩ := OrderedTable.mem_valuesAt.mp edge
  exact valid.targets _ entry _ listed

theorem symbol_of_edge (valid : automaton.Valid) {source target : Nat} {symbol : Char}
    (edge : automaton.HasEdge source (some symbol) target) : symbol ∈ automaton.alphabet := by
  obtain ⟨transitions, entry, listed⟩ := OrderedTable.mem_valuesAt.mp edge
  exact valid.symbols _ entry _ listed symbol rfl

theorem target_of_path (valid : automaton.Valid) {source target : Nat} {word : List Char}
    (path : automaton.Path source word target) (starts : source ∈ automaton.states) :
    target ∈ automaton.states := by
  induction path with
  | here => exact starts
  | silent edge _ ih => exact ih (valid.target_of_edge edge)
  | reading edge _ ih => exact ih (valid.target_of_edge edge)

theorem symbols_of_walk (valid : automaton.Valid) {source target : Nat} {word : List Char}
    (walked : automaton.walk source word = some target) :
    ∀ symbol ∈ word, symbol ∈ automaton.alphabet := by
  induction word generalizing source with
  | nil => exact List.forall_mem_nil _
  | cons symbol rest ih =>
    unfold walk at walked
    cases found : automaton.next? source symbol with
    | none => simp [found] at walked
    | some middle =>
      rw [found] at walked
      have edge := hasEdge_of_next? found
      exact List.forall_mem_cons.mpr ⟨valid.symbol_of_edge edge, ih walked⟩

end Valid

end Recognizer.Automaton
