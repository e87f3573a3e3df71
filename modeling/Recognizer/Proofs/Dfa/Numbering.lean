import Mathlib.Data.List.Shortlex
import Recognizer.Proofs.Dfa.Exactness
import Recognizer.Proofs.Dfa.Provenance

/-!
The order of numbers. Words are compared by length, and words of one length by the first place where
they differ. The least word that leads to a state is its access word. A visit extends the access
word of the visited state by one symbol after another, so what it discovers comes behind all that is
known, and no later visit offers a smaller word. Numbers therefore grow as access words do.
-/

namespace Recognizer.Dfa

/-- Shorter words first, words of one length by the order of their symbols. -/
def Before (symbols first second : List Char) : Prop :=
  List.Shortlex (fun left right => symbols.idxOf left < symbols.idxOf right) first second

def AtMost (symbols first second : List Char) : Prop :=
  first = second ∨ Before symbols first second

section Before

variable {symbols first second third : List Char}

theorem not_before_of_before (before : Before symbols first second) :
    ¬Before symbols second first := by
  have asymmetric : Std.Asymm fun left right => symbols.idxOf left < symbols.idxOf right :=
    ⟨fun _ _ less => Nat.lt_asymm less⟩
  exact List.Shortlex.asymm.asymm first second before

theorem before_trans (left : Before symbols first second) (right : Before symbols second third) :
    Before symbols first third := by
  rcases List.shortlex_def.mp left with shorter | ⟨same, smaller⟩
  · apply List.Shortlex.of_length_lt
    rcases List.shortlex_def.mp right with again | ⟨other, _⟩
    · exact Nat.lt_trans shorter again
    · exact other ▸ shorter
  · rcases List.shortlex_def.mp right with shorter | ⟨other, again⟩
    · exact List.Shortlex.of_length_lt (same ▸ shorter)
    · exact List.Shortlex.of_lex (same.trans other) (List.lex_trans Nat.lt_trans smaller again)

theorem atMost_trans (left : AtMost symbols first second) (right : AtMost symbols second third) :
    AtMost symbols first third := by
  rcases left with same | left
  · exact same ▸ right
  · rcases right with same | right
    · exact Or.inr (same ▸ left)
    · exact Or.inr (before_trans left right)

/-- Words of one length keep their order when they are continued. -/
theorem lex_append {less : Char → Char → Prop} (smaller : List.Lex less first second)
    (same : first.length = second.length) (left right : List Char) :
    List.Lex less (first ++ left) (second ++ right) := by
  induction smaller with
  | nil => cases same
  | rel less => exact List.Lex.rel less
  | cons _ ih => exact List.Lex.cons (ih (Nat.succ.inj same))

theorem before_snoc (before : Before symbols first second) (left right : Char) :
    Before symbols (first ++ [left]) (second ++ [right]) := by
  rcases List.shortlex_def.mp before with shorter | ⟨same, smaller⟩
  · apply List.Shortlex.of_length_lt
    simpa using shorter
  · exact List.Shortlex.of_lex (by simpa using same) (lex_append smaller same [left] [right])

theorem before_snoc_of_lt {left right : Char} (less : symbols.idxOf left < symbols.idxOf right)
    (word : List Char) : Before symbols (word ++ [left]) (word ++ [right]) :=
  ((List.shortlex_singleton_iff left right).mpr less).append_left word

theorem nil_before_snoc (word : List Char) (symbol : Char) :
    Before symbols [] (word ++ [symbol]) :=
  List.Shortlex.of_length_lt (by simp)

theorem atMost_snoc (atMost : AtMost symbols first second) (symbol : Char) :
    AtMost symbols (first ++ [symbol]) (second ++ [symbol]) := by
  rcases atMost with same | before
  · exact Or.inl (congrArg (· ++ [symbol]) same)
  · exact Or.inr (before_snoc before symbol symbol)

theorem pairwise_idxOf (distinct : symbols.Nodup) :
    symbols.Pairwise fun left right => symbols.idxOf left < symbols.idxOf right := by
  rw [List.pairwise_iff_getElem]
  intro left right leftBound rightBound less
  rw [distinct.idxOf_getElem, distinct.idxOf_getElem]
  exact less

end Before

variable {source : Automaton}

structure Accessed (source : Automaton) (visited waiting : List (List Char)) : Prop where
  first : (visited ++ waiting).head? = some []
  spelled : ∀ word ∈ visited ++ waiting, ∀ symbol ∈ word, symbol ∈ source.alphabet
  ordered : (visited ++ waiting).Pairwise (Before source.alphabet.items)
  grown : ∀ word ∈ visited ++ waiting,
    word = [] ∨ ∃ parent ∈ visited, ∃ symbol, word = parent ++ [symbol]
  least : ∀ parent ∈ visited, ∀ symbol ∈ source.alphabet, source.active (parent ++ [symbol]) ≠ [] →
    ∃ word ∈ visited ++ waiting, source.active word = source.active (parent ++ [symbol]) ∧
      AtMost source.alphabet.items word (parent ++ [symbol])

theorem accessed_initial (source : Automaton) : Accessed source [] [[]] where
  first := rfl
  spelled := by simp
  ordered := List.pairwise_singleton _ _
  grown := by simp
  least := by simp

section Visit

variable {visited waiting : List (List Char)} {parent : List Char}

/-- What extends the first waiting word comes behind all words so far. -/
theorem before_of_waiting (accessed : Accessed source visited (parent :: waiting))
    {word : List Char} (member : word ∈ visited ++ parent :: waiting) (symbol : Char) :
    Before source.alphabet.items word (parent ++ [symbol]) := by
  rcases accessed.grown word member with empty | ⟨earlier, visitedBefore, letter, same⟩
  · subst empty
    exact nil_before_snoc parent symbol
  · subst same
    have ordered := (List.pairwise_append.mp accessed.ordered).2.2
    exact before_snoc (ordered earlier visitedBefore parent List.mem_cons_self) letter symbol

theorem accessed_visit {added : List (List Nat)} {firsts : List Char}
    (accessed : Accessed source visited (parent :: waiting))
    (found : Firsts source (source.active parent) source.alphabet.items
      ((visited ++ parent :: waiting).map source.active) added firsts) :
    Accessed source (visited ++ [parent])
      (waiting ++ firsts.map fun symbol => parent ++ [symbol]) := by
  have regroup : visited ++ [parent] ++ (waiting ++ firsts.map fun symbol => parent ++ [symbol]) =
      (visited ++ parent :: waiting) ++ firsts.map fun symbol => parent ++ [symbol] := by
    simp
  have here : parent ∈ visited ++ parent :: waiting :=
    List.mem_append_right visited List.mem_cons_self
  constructor
  case first =>
    rw [regroup, List.head?_append, accessed.first]
    rfl
  case spelled =>
    intro word member symbol letter
    rw [regroup, List.mem_append, List.mem_map] at member
    rcases member with old | ⟨first, fresh, same⟩
    · exact accessed.spelled word old symbol letter
    · subst same
      rcases List.mem_append.mp letter with earlier | last
      · exact accessed.spelled parent here symbol earlier
      · cases List.mem_singleton.mp last
        exact found.listed.subset fresh
  case ordered =>
    rw [regroup, List.pairwise_append]
    refine ⟨accessed.ordered, ?_, ?_⟩
    · rw [List.pairwise_map]
      refine ((pairwise_idxOf source.alphabet.distinct).sublist found.listed).imp ?_
      exact fun less => before_snoc_of_lt less parent
    · intro word member extended fresh
      obtain ⟨symbol, _, same⟩ := List.mem_map.mp fresh
      subst same
      exact before_of_waiting accessed member symbol
  case grown =>
    intro word member
    rw [regroup, List.mem_append, List.mem_map] at member
    rcases member with old | ⟨first, _, same⟩
    · refine (accessed.grown word old).imp_right ?_
      rintro ⟨earlier, visitedBefore, extended⟩
      exact ⟨earlier, List.mem_append_left _ visitedBefore, extended⟩
    · exact Or.inr ⟨parent, List.mem_append_right _ (List.mem_singleton_self _), first, same.symm⟩
  case least =>
    intro earlier member symbol known moves
    rw [regroup]
    rcases List.mem_append.mp member with visitedBefore | last
    · obtain ⟨word, old, reaches, small⟩ := accessed.least earlier visitedBefore symbol known moves
      exact ⟨word, List.mem_append_left _ old, reaches, small⟩
    · cases List.mem_singleton.mp last
      rw [active_append] at moves ⊢
      rcases found.earliest symbol known moves with old | ⟨first, fresh, same, before⟩
      · obtain ⟨word, old, reaches⟩ := List.mem_map.mp old
        exact ⟨word, List.mem_append_left _ old, reaches,
          Or.inr (before_of_waiting accessed old symbol)⟩
      · refine ⟨parent ++ [first], List.mem_append_right _ (List.mem_map_of_mem fresh), ?_, ?_⟩
        · rw [active_append, same]
        · -- of two symbols at one place there is only one
          rcases Nat.lt_or_eq_of_le before with less | equal
          · exact Or.inr (before_snoc_of_lt less parent)
          · rw [(List.idxOf_inj (found.listed.subset fresh)).mp equal]
            exact Or.inl rfl

end Visit

def Spelled (source : Automaton) (visited waiting : List (List Nat)) : Prop :=
  ∃ before after, visited = before.map source.active ∧ waiting = after.map source.active ∧
    Accessed source before after

theorem kept_spelled (source : Automaton) : Kept source (Spelled source) := by
  rintro visited waiting subset added found ⟨before, after, known, next, accessed⟩
  obtain ⟨parent, rest, same, head, tail⟩ := List.map_eq_cons_iff.mp next.symm
  subst known same head tail
  obtain ⟨firsts, ordered⟩ := found.ordered
  rw [← List.map_cons, ← List.map_append] at ordered
  refine ⟨before ++ [parent], rest ++ firsts.map fun symbol => parent ++ [symbol], by simp, ?_,
    accessed_visit accessed ordered⟩
  rw [ordered.added, List.map_append, List.map_map]
  congr 1
  apply List.map_congr_left
  exact fun symbol _ => (active_append source parent symbol).symm

/-- The states in their order and the words that lead to them. -/
theorem accessed_explored (source : Automaton) :
    ∃ words, (determinize source).subsets = words.map source.active ∧ Accessed source words [] := by
  have start : Spelled source [] [source.silentClosure [source.start]] :=
    ⟨[], [[]], rfl, rfl, accessed_initial source⟩
  obtain ⟨_, words, after, known, ended, accessed⟩ := holds_explored (kept_spelled source) start
  cases List.map_eq_nil_iff.mp ended.symm
  exact ⟨words, known, accessed⟩

/-- The least word over the alphabet that leads to a state from the start. -/
structure Accesses (dfa : Dfa) (state : Nat) (word : List Char) : Prop where
  spelled : ∀ symbol ∈ word, symbol ∈ dfa.automaton.alphabet
  leads : dfa.automaton.walk dfa.automaton.start word = some state
  least : ∀ other, (∀ symbol ∈ other, symbol ∈ dfa.automaton.alphabet) →
    dfa.automaton.walk dfa.automaton.start other = some state →
      AtMost dfa.automaton.alphabet.items word other

theorem accesses_unique {dfa : Dfa} {state : Nat} {word other : List Char}
    (accesses : Accesses dfa state word) (again : Accesses dfa state other) : other = word := by
  rcases accesses.least other again.spelled again.leads with same | before
  · exact same.symm
  · rcases again.least word accesses.spelled accesses.leads with same | after
    · exact same
    · exact absurd after (not_before_of_before before)

/-- The first symbol that leads from the start to another state is that state's access word. -/
theorem accesses_symbol {dfa : Dfa} {state : Nat} {symbol : Char}
    (apart : state ≠ dfa.automaton.start)
    (found : dfa.automaton.alphabet.items.find?
      (fun other => dfa.automaton.walk dfa.automaton.start [other] = some state) = some symbol) :
    Accesses dfa state [symbol] := by
  obtain ⟨leads, earlier, later, split, missing⟩ := List.find?_eq_some_iff_append.mp found
  simp only [decide_eq_true_eq, Bool.not_eq_true', decide_eq_false_iff_not] at leads missing
  have listed : symbol ∈ dfa.automaton.alphabet.items := List.mem_of_find?_eq_some found
  refine ⟨fun letter member => List.mem_singleton.mp member ▸ listed, leads, ?_⟩
  intro other letters walked
  rcases other with _ | ⟨first, _ | ⟨second, rest⟩⟩
  · exact absurd (Option.some.inj walked).symm apart
  · have front : symbol ∉ earlier := fun member => missing symbol member leads
    have behind : first ∉ earlier := fun member => missing first member walked
    have place : dfa.automaton.alphabet.items.idxOf symbol ≤
        dfa.automaton.alphabet.items.idxOf first := by
      rw [split, List.idxOf_append_of_notMem front, List.idxOf_append_of_notMem behind,
        List.idxOf_cons_self]
      exact Nat.add_le_add_left (Nat.zero_le _) _
    rcases Nat.lt_or_eq_of_le place with less | same
    · exact Or.inr ((List.shortlex_singleton_iff symbol first).mpr less)
    · exact Or.inl (congrArg ([·]) ((List.idxOf_inj listed).mp same))
  · exact Or.inr (List.Shortlex.of_length_lt (by simp))

/-- A word over the alphabet leads to the state that stands for its active set. -/
theorem walk_eq_some_iff {word : List Char} (spelled : ∀ symbol ∈ word, symbol ∈ source.alphabet)
    {state : Nat} :
    (determinize source).automaton.walk (determinize source).automaton.start word = some state ↔
      (determinize source).subset? state = some (source.active word) := by
  constructor
  · exact subset?_of_walk
  · intro stands
    rcases walk_determinize (subset?_start source) (contained_of_alphabet spelled) with
      ⟨target, walked, standing⟩ | ⟨_, empty⟩
    · exact subset?_injective stands standing ▸ walked
    · exact absurd empty (reached_of_subset? stands).1

theorem active_ne_nil_of_snoc {word : List Char} {symbol : Char}
    (moves : source.active (word ++ [symbol]) ≠ []) : source.active word ≠ [] := by
  intro empty
  apply moves
  rw [active_append, empty, Automaton.advance_nil]

/-- No word over the alphabet is smaller than the one that was recorded for its active set. -/
theorem least_recorded {words : List (List Char)} (accessed : Accessed source words [])
    (word : List Char) (spelled : ∀ symbol ∈ word, symbol ∈ source.alphabet)
    (moves : source.active word ≠ []) :
    ∃ recorded ∈ words, source.active recorded = source.active word ∧
      AtMost source.alphabet.items recorded word := by
  induction word using List.reverseRecOn with
  | nil =>
    have first := accessed.first
    rw [List.append_nil] at first
    exact ⟨[], List.mem_of_head? first, rfl, Or.inl rfl⟩
  | append_singleton word symbol ih =>
    have front : ∀ letter ∈ word, letter ∈ source.alphabet :=
      fun letter member => spelled letter (List.mem_append_left _ member)
    have last := spelled symbol (List.mem_append_right _ (List.mem_singleton_self _))
    obtain ⟨parent, member, same, small⟩ := ih front (active_ne_nil_of_snoc moves)
    -- the recorded word of the front is extended as the word itself is
    have extended : source.active (parent ++ [symbol]) = source.active (word ++ [symbol]) := by
      rw [active_append, active_append, same]
    obtain ⟨recorded, among, reaches, least⟩ :=
      accessed.least parent member symbol last (extended ▸ moves)
    rw [List.append_nil] at among
    exact ⟨recorded, among, reaches.trans extended, atMost_trans least (atMost_snoc small symbol)⟩

theorem accesses_recorded {words : List (List Char)}
    (known : (determinize source).subsets = words.map source.active)
    (accessed : Accessed source words []) {state : Nat} {word : List Char}
    (recorded : words[state]? = some word) : Accesses (determinize source) state word := by
  have distinct : (determinize source).subsets.Nodup := (stage_explored source).distinct
  rw [known] at distinct
  have member : word ∈ words := List.mem_of_getElem? recorded
  have stands : (determinize source).subset? state = some (source.active word) := by
    rw [subset?, known, List.getElem?_map, recorded]
    rfl
  have spelled := accessed.spelled word (List.mem_append_left [] member)
  constructor
  case spelled => exact spelled
  case leads => exact (walk_eq_some_iff spelled).mpr stands
  case least =>
    intro other letters walked
    have standing := subset?_of_walk walked
    obtain ⟨least, among, reaches, small⟩ :=
      least_recorded accessed other letters (reached_of_subset? standing).1
    -- the recorded words have different active sets, so the least one is the word itself
    have same : source.active least = source.active word := by
      rw [reaches]
      exact Option.some.inj (standing.symm.trans stands)
    rw [← List.inj_on_of_nodup_map distinct among member same]
    exact small

theorem exists_recorded {words : List (List Char)}
    (known : (determinize source).subsets = words.map source.active) {state : Nat}
    (member : state ∈ (determinize source).automaton.states) :
    ∃ word, words[state]? = some word := by
  obtain ⟨subset, stands⟩ := mem_states_determinize.mp member
  rw [subset?, known, List.getElem?_map] at stands
  obtain ⟨word, recorded, _⟩ := Option.map_eq_some_iff.mp stands
  exact ⟨word, recorded⟩

section Recorded

variable {words : List (List Char)} {left right : Nat} {first second : List Char}

theorem recorded_of_accesses (known : (determinize source).subsets = words.map source.active)
    (accessed : Accessed source words []) (accesses : Accesses (determinize source) left first) :
    words[left]? = some first := by
  have valid := valid_determinize source
  obtain ⟨word, recorded⟩ :=
    exists_recorded known (valid.target_of_path (Automaton.path_of_walk accesses.leads) valid.start)
  rw [recorded, accesses_unique accesses (accesses_recorded known accessed recorded)]

theorem before_of_lt (known : (determinize source).subsets = words.map source.active)
    (accessed : Accessed source words []) (leftAccess : Accesses (determinize source) left first)
    (rightAccess : Accesses (determinize source) right second) (less : left < right) :
    Before source.alphabet.items first second := by
  obtain ⟨leftBound, leftWord⟩ :=
    List.getElem?_eq_some_iff.mp (recorded_of_accesses known accessed leftAccess)
  obtain ⟨rightBound, rightWord⟩ :=
    List.getElem?_eq_some_iff.mp (recorded_of_accesses known accessed rightAccess)
  have ordered := accessed.ordered
  rw [List.append_nil] at ordered
  rw [← leftWord, ← rightWord]
  exact List.pairwise_iff_getElem.mp ordered left right leftBound rightBound less

end Recorded

theorem sublist_symbols_edgesFrom (source : Automaton) (known : List (List Nat))
    (symbols : List Char) (subset : List Nat) :
    ((edgesFrom source known symbols subset).map Transition.symbol).Sublist (symbols.map some) := by
  induction symbols with
  | nil => exact List.Sublist.slnil
  | cons symbol rest ih =>
    by_cases stuck : source.advance subset symbol = []
    · rw [edgesFrom_cons_stuck stuck]
      exact ih.cons (some symbol)
    · rw [edgesFrom_cons_moving stuck]
      exact ih.cons_cons (some symbol)

theorem sublist_symbols_transitionsFrom (source : Automaton) (state : Nat) :
    (((determinize source).automaton.transitionsFrom state).map Transition.symbol).Sublist
      (source.alphabet.items.map some) := by
  cases stands : (determinize source).subset? state with
  | some subset =>
    rw [transitionsFrom_determinize stands]
    exact sublist_symbols_edgesFrom source _ _ subset
  | none =>
    -- a number that was not given out has no entry
    cases edges : (determinize source).automaton.transitionsFrom state with
    | nil => exact List.nil_sublist _
    | cons transition rest =>
      have listed : transition ∈ (determinize source).automaton.transitionsFrom state := by
        simp [edges]
      obtain ⟨values, entry, _⟩ := OrderedTable.mem_valuesAt.mp listed
      obtain ⟨subset, standing, _⟩ := entry_determinize entry
      cases stands.symm.trans standing

theorem pairwise_finals (source : Automaton) :
    (determinize source).automaton.finals.items.Pairwise (· < ·) := by
  have listed := (stage_explored source).finals
  have ascending : (explored source).finals.reverse.Pairwise (· < ·) := by
    rw [listed]
    have numbers : ((tickets 0 (explored source).known).map Prod.fst).Pairwise (· < ·) := by
      rw [map_fst_tickets]
      exact List.pairwise_lt_range
    exact numbers.sublist (List.filter_sublist.map Prod.fst)
  change (OrderedSet.ofList (explored source).finals.reverse).items.Pairwise (· < ·)
  rw [OrderedSet.items_ofList ascending.nodup]
  exact ascending

/-- States are numbered from the start in the order of their access words, whatever the automaton.
The edges of a state are listed in the order of the alphabet, and final states in their own. -/
theorem numbered_by_access (source : Automaton) :
    (determinize source).automaton.start = 0 ∧
    (∀ state ∈ (determinize source).automaton.states,
      ∃! word, Accesses (determinize source) state word) ∧
    (∀ left right first second, Accesses (determinize source) left first →
      Accesses (determinize source) right second →
        (left < right ↔ Before source.alphabet.items first second)) ∧
    (∀ state, (((determinize source).automaton.transitionsFrom state).map
      Transition.symbol).Sublist (source.alphabet.items.map some)) ∧
    (determinize source).automaton.finals.items.Pairwise (· < ·) := by
  obtain ⟨words, known, accessed⟩ := accessed_explored source
  refine ⟨rfl, ?_, ?_, sublist_symbols_transitionsFrom source, pairwise_finals source⟩
  · intro state member
    obtain ⟨word, recorded⟩ := exists_recorded known member
    have accesses := accesses_recorded known accessed recorded
    exact ⟨word, accesses, fun other again => accesses_unique accesses again⟩
  · intro left right first second leftAccess rightAccess
    refine ⟨before_of_lt known accessed leftAccess rightAccess, fun before => ?_⟩
    rcases Nat.lt_trichotomy left right with less | same | greater
    · exact less
    · subst same
      cases accesses_unique leftAccess rightAccess
      exact absurd before (not_before_of_before before)
    · have after := before_of_lt known accessed rightAccess leftAccess greater
      exact absurd before (not_before_of_before after)

/-- The alphabet lists `b` first, so the state behind `b` comes before the one behind `a`. -/
theorem numbered_by_access_tangled :
    Accesses (determinize tangled) 1 ['b'] ∧ Accesses (determinize tangled) 2 ['a'] ∧
      (1 < 2 ↔ Before ['b', 'a'] ['b'] ['a']) ∧ 2 ∈ (determinize tangled).automaton.states ∧
        ∃! word, Accesses (determinize tangled) 2 word := by
  have first : Accesses (determinize tangled) 1 ['b'] :=
    accesses_symbol (by decide +kernel) (by decide +kernel)
  have second : Accesses (determinize tangled) 2 ['a'] :=
    accesses_symbol (by decide +kernel) (by decide +kernel)
  have member : 2 ∈ (determinize tangled).automaton.states := by decide +kernel
  obtain ⟨_, unique, ordered, _⟩ := numbered_by_access tangled
  exact ⟨first, second, ordered 1 2 ['b'] ['a'] first second, member, unique 2 member⟩

end Recognizer.Dfa
