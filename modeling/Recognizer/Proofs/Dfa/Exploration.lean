import Mathlib.Data.List.Sort
import Mathlib.Data.List.Sublists
import Recognizer.Dfa.Subset
import Recognizer.Proofs.Nfa.Activity

/-!
How sets of states are explored. The known sets are those already visited followed by those that
wait, and one visit moves the first that waits behind the visited ones; what the visit discovers
joins the end. Every known set is active after some word of the alphabet, so it is one of finitely
many, and the exploration ends with no set waiting.
-/

namespace Recognizer.Dfa

def tickets (first : Nat) (subsets : List (List Nat)) : List (Nat × List Nat) :=
  (subsets.zipIdx first).map fun entry => (entry.2, entry.1)

theorem tickets_cons (first : Nat) (subset : List Nat) (rest : List (List Nat)) :
    tickets first (subset :: rest) = (first, subset) :: tickets (first + 1) rest := rfl

theorem tickets_append (first : Nat) (left right : List (List Nat)) :
    tickets first (left ++ right) = tickets first left ++ tickets (first + left.length) right := by
  simp [tickets, List.zipIdx_append]

theorem mem_tickets {number : Nat} {subset : List Nat} {subsets : List (List Nat)} :
    (number, subset) ∈ tickets 0 subsets ↔ subsets[number]? = some subset := by
  rw [← List.mk_mem_zipIdx_iff_getElem?, tickets, List.mem_map]
  constructor
  · rintro ⟨⟨other, position⟩, member, same⟩
    cases same
    exact member
  · intro member
    exact ⟨(subset, number), member, rfl⟩

theorem map_fst_tickets (subsets : List (List Nat)) :
    (tickets 0 subsets).map Prod.fst = List.range subsets.length := by
  rw [tickets, List.map_map, List.range_eq_range', ← List.zipIdx_map_snd 0 subsets]
  rfl

def grow (work : Exploration) (added : List (List Nat)) : Exploration :=
  { work with
    known := work.known ++ added
    pending := work.pending ++ tickets work.known.length added }

theorem grow_nil (work : Exploration) : grow work [] = work := by
  simp [grow, tickets]

theorem grow_grow (work : Exploration) (first second : List (List Nat)) :
    grow (grow work first) second = grow work (first ++ second) := by
  simp [grow, tickets_append]

theorem number_known {work : Exploration} {subset : List Nat} (known : subset ∈ work.known) :
    number work subset = (work.known.idxOf subset, work) := by
  obtain ⟨place, found⟩ := Option.isSome_iff_exists.mp (List.isSome_idxOf?.mpr known)
  have same : work.known.idxOf subset = place := by
    rw [List.idxOf_eq_getD_idxOf?, found]
    rfl
  unfold number
  rw [found, same]

theorem number_fresh {work : Exploration} {subset : List Nat} (fresh : subset ∉ work.known) :
    number work subset = (work.known.length, grow work [subset]) := by
  unfold number
  rw [List.idxOf?_eq_none_iff.mpr fresh]
  rfl

theorem follow_cons_stuck {source : Automaton} {subset : List Nat} {symbol : Char}
    (stuck : source.advance subset symbol = []) (rest : List Char) (work : Exploration) :
    follow source subset (symbol :: rest) work = follow source subset rest work := by
  simp [follow, stuck]

theorem follow_cons_moving {source : Automaton} {subset : List Nat} {symbol : Char}
    (moves : source.advance subset symbol ≠ []) (rest : List Char) (work : Exploration) :
    follow source subset (symbol :: rest) work =
      let (known, numbered) := number work (source.advance subset symbol)
      let (row, done) := follow source subset rest numbered
      (Transition.reading symbol known :: row, done) := by
  simp [follow, moves]

/-- The edges of a set when the known sets include all those it leads to. -/
def edgesFrom (source : Automaton) (known : List (List Nat)) (symbols : List Char)
    (subset : List Nat) : List Transition :=
  symbols.filterMap fun symbol =>
    if source.advance subset symbol = [] then none
    else some (Transition.reading symbol (known.idxOf (source.advance subset symbol)))

theorem edgesFrom_cons_stuck {source : Automaton} {subset : List Nat} {symbol : Char}
    (stuck : source.advance subset symbol = []) (known : List (List Nat)) (rest : List Char) :
    edgesFrom source known (symbol :: rest) subset = edgesFrom source known rest subset := by
  simp [edgesFrom, stuck]

theorem edgesFrom_cons_moving {source : Automaton} {subset : List Nat} {symbol : Char}
    (moves : source.advance subset symbol ≠ []) (known : List (List Nat)) (rest : List Char) :
    edgesFrom source known (symbol :: rest) subset =
      Transition.reading symbol (known.idxOf (source.advance subset symbol)) ::
        edgesFrom source known rest subset := by
  simp [edgesFrom, moves]

/-- The symbols on which a set leads to a new set first, in their order. -/
structure Firsts (source : Automaton) (subset : List Nat) (symbols : List Char)
    (known added : List (List Nat)) (firsts : List Char) : Prop where
  added : added = firsts.map (source.advance subset)
  listed : firsts.Sublist symbols
  earliest : ∀ symbol ∈ symbols, source.advance subset symbol ≠ [] →
    source.advance subset symbol ∈ known ∨
      ∃ first ∈ firsts, source.advance subset first = source.advance subset symbol ∧
        symbols.idxOf first ≤ symbols.idxOf symbol

structure Discovery (source : Automaton) (subset : List Nat) (symbols : List Char)
    (known added : List (List Nat)) : Prop where
  covers : ∀ symbol ∈ symbols, source.advance subset symbol ≠ [] →
    source.advance subset symbol ∈ known ++ added
  leads : ∀ target ∈ added, target ≠ [] ∧ ∃ symbol ∈ symbols, source.advance subset symbol = target
  distinct : known.Nodup → (known ++ added).Nodup
  ordered : ∃ firsts, Firsts source subset symbols known added firsts

theorem idxOf_cons_le (first symbol : Char) (rest : List Char) :
    (symbol :: rest).idxOf first ≤ rest.idxOf first + 1 := by
  by_cases same : symbol = first
  · rw [same, List.idxOf_cons_self]
    exact Nat.zero_le _
  · rw [List.idxOf_cons_ne rest same]

namespace Firsts

variable {source : Automaton} {subset : List Nat} {symbol : Char} {rest firsts : List Char}
  {known added : List (List Nat)}

theorem again (found : Firsts source subset rest known added firsts)
    (familiar : source.advance subset symbol ≠ [] → source.advance subset symbol ∈ known) :
    Firsts source subset (symbol :: rest) known added firsts where
  added := found.added
  listed := found.listed.cons symbol
  earliest := by
    intro other member moves
    by_cases same : other = symbol
    · subst same
      exact Or.inl (familiar moves)
    · have later := (List.mem_cons.mp member).resolve_left same
      refine (found.earliest other later moves).imp_right ?_
      rintro ⟨first, fresh, target, before⟩
      refine ⟨first, fresh, target, ?_⟩
      rw [List.idxOf_cons_ne rest (Ne.symm same)]
      exact Nat.le_trans (idxOf_cons_le first _ rest) (Nat.succ_le_succ before)

theorem first (found : Firsts source subset rest (known ++ [source.advance subset symbol]) added
      firsts) :
    Firsts source subset (symbol :: rest) known (source.advance subset symbol :: added)
      (symbol :: firsts) where
  added := congrArg (source.advance subset symbol :: ·) found.added
  listed := found.listed.cons_cons symbol
  earliest := by
    have here : (symbol :: rest).idxOf symbol = 0 := List.idxOf_cons_self
    intro other member moves
    by_cases target : source.advance subset symbol = source.advance subset other
    · exact Or.inr ⟨symbol, List.mem_cons_self, target, here ▸ Nat.zero_le _⟩
    · have apart : other ≠ symbol := fun same => target (same ▸ rfl)
      have later := (List.mem_cons.mp member).resolve_left apart
      rcases found.earliest other later moves with known | ⟨first, fresh, same, before⟩
      · rcases List.mem_append.mp known with old | new
        · exact Or.inl old
        · exact absurd (List.mem_singleton.mp new).symm target
      · refine Or.inr ⟨first, List.mem_cons_of_mem symbol fresh, same, ?_⟩
        rw [List.idxOf_cons_ne rest (Ne.symm apart)]
        exact Nat.le_trans (idxOf_cons_le first _ rest) (Nat.succ_le_succ before)

end Firsts

namespace Discovery

variable {source : Automaton} {subset : List Nat} {symbol : Char} {rest : List Char}
  {known added : List (List Nat)}

theorem nothing (source : Automaton) (subset : List Nat) (known : List (List Nat)) :
    Discovery source subset [] known [] :=
  ⟨by simp, by simp, by simp, [], rfl, List.nil_sublist [], by simp⟩

theorem again (found : Discovery source subset rest known added)
    (familiar : source.advance subset symbol ≠ [] → source.advance subset symbol ∈ known) :
    Discovery source subset (symbol :: rest) known added where
  covers := by
    intro other member moves
    rcases List.mem_cons.mp member with same | later
    · subst same
      exact List.mem_append_left added (familiar moves)
    · exact found.covers other later moves
  leads := by
    intro target member
    obtain ⟨filled, other, later, reaches⟩ := found.leads target member
    exact ⟨filled, other, List.mem_cons_of_mem symbol later, reaches⟩
  distinct := found.distinct
  ordered := found.ordered.imp fun _ firsts => firsts.again familiar

theorem first (moves : source.advance subset symbol ≠ [])
    (fresh : source.advance subset symbol ∉ known)
    (found : Discovery source subset rest (known ++ [source.advance subset symbol]) added) :
    Discovery source subset (symbol :: rest) known (source.advance subset symbol :: added) where
  covers := by
    intro other member leaves
    rcases List.mem_cons.mp member with same | later
    · subst same
      exact List.mem_append_right known List.mem_cons_self
    · simpa using found.covers other later leaves
  leads := by
    intro target member
    rcases List.mem_cons.mp member with same | later
    · subst same
      exact ⟨moves, symbol, List.mem_cons_self, rfl⟩
    · obtain ⟨filled, other, later, reaches⟩ := found.leads target later
      exact ⟨filled, other, List.mem_cons_of_mem symbol later, reaches⟩
  distinct := by
    intro distinct
    have extended : (known ++ [source.advance subset symbol]).Nodup := by
      rw [List.nodup_append]
      refine ⟨distinct, by simp, ?_⟩
      intro set member other single same
      exact fresh (List.mem_singleton.mp single ▸ same ▸ member)
    simpa using found.distinct extended
  ordered := by
    obtain ⟨firsts, ordered⟩ := found.ordered
    exact ⟨symbol :: firsts, ordered.first⟩

end Discovery

theorem idxOf_append_of_mem {known : List (List Nat)} {subset : List Nat} (member : subset ∈ known)
    (added : List (List Nat)) : (known ++ added).idxOf subset = known.idxOf subset := by
  rw [List.idxOf_append, if_pos member]

theorem idxOf_append_self {known : List (List Nat)} {subset : List Nat} (fresh : subset ∉ known)
    (added : List (List Nat)) : (known ++ subset :: added).idxOf subset = known.length := by
  rw [List.idxOf_append, if_neg fresh, List.idxOf_cons_self, Nat.zero_add]

/-- Following a set on symbols changes an exploration only by what it discovers. -/
theorem follow_eq (source : Automaton) (subset : List Nat) (symbols : List Char)
    (work : Exploration) :
    ∃ added, Discovery source subset symbols work.known added ∧
      follow source subset symbols work =
        (edgesFrom source (work.known ++ added) symbols subset, grow work added) := by
  induction symbols generalizing work with
  | nil =>
    refine ⟨[], Discovery.nothing source subset work.known, ?_⟩
    rw [grow_nil]
    rfl
  | cons symbol rest ih =>
    by_cases stuck : source.advance subset symbol = []
    · obtain ⟨added, found, result⟩ := ih work
      refine ⟨added, found.again (absurd stuck), ?_⟩
      rw [follow_cons_stuck stuck, edgesFrom_cons_stuck stuck, result]
    · -- a set that is known keeps its number, a new one takes the next
      by_cases known : source.advance subset symbol ∈ work.known
      · obtain ⟨added, found, result⟩ := ih work
        refine ⟨added, found.again fun _ => known, ?_⟩
        rw [follow_cons_moving stuck, number_known known, edgesFrom_cons_moving stuck,
          idxOf_append_of_mem known added]
        simp only [result]
      · obtain ⟨added, found, result⟩ := ih (grow work [source.advance subset symbol])
        refine ⟨source.advance subset symbol :: added, Discovery.first stuck known found, ?_⟩
        rw [follow_cons_moving stuck, number_fresh known, edgesFrom_cons_moving stuck,
          idxOf_append_self known added]
        simp only [result, grow_grow, List.singleton_append]
        simp [grow]

theorem edgesFrom_append {source : Automaton} {known : List (List Nat)} {symbols : List Char}
    {subset : List Nat}
    (covered : ∀ symbol ∈ symbols, source.advance subset symbol ≠ [] →
      source.advance subset symbol ∈ known) (added : List (List Nat)) :
    edgesFrom source (known ++ added) symbols subset = edgesFrom source known symbols subset := by
  apply List.filterMap_congr
  intro symbol member
  by_cases stuck : source.advance subset symbol = []
  · simp [stuck]
  · rw [if_neg stuck, if_neg stuck, idxOf_append_of_mem (covered symbol member stuck)]

def Reached (source : Automaton) (subset : List Nat) : Prop :=
  subset ≠ [] ∧
    ∃ word : List Char, (∀ symbol ∈ word, symbol ∈ source.alphabet) ∧ source.active word = subset

theorem reached_start (source : Automaton) :
    Reached source (source.silentClosure [source.start]) := by
  have started : source.start ∈ source.silentClosure [source.start] :=
    Automaton.mem_silentClosure.mpr ⟨_, List.mem_singleton_self _, Automaton.Path.here _⟩
  exact ⟨List.ne_nil_of_mem started, [], by simp, rfl⟩

theorem active_append (source : Automaton) (word : List Char) (symbol : Char) :
    source.active (word ++ [symbol]) = source.advance (source.active word) symbol := by
  simp [Automaton.active]

theorem reached_advance {source : Automaton} {subset : List Nat} {symbol : Char}
    (reached : Reached source subset) (known : symbol ∈ source.alphabet)
    (moves : source.advance subset symbol ≠ []) :
    Reached source (source.advance subset symbol) := by
  obtain ⟨_, word, spelled, same⟩ := reached
  refine ⟨moves, word ++ [symbol], ?_, ?_⟩
  · intro letter among
    rcases List.mem_append.mp among with earlier | single
    · exact spelled letter earlier
    · cases List.mem_singleton.mp single
      exact known
  · rw [active_append, same]

/-- An exploration between two visits: the sets visited so far in the order of their numbers, and
those that wait. -/
structure Stage (source : Automaton) (visited waiting : List (List Nat)) (work : Exploration) :
    Prop where
  known : work.known = visited ++ waiting
  first : work.known[0]? = some (source.silentClosure [source.start])
  pending : work.pending = tickets visited.length waiting
  rows : work.rows.reverse = (tickets 0 visited).map fun ticket =>
    (ticket.1, edgesFrom source work.known source.alphabet.items ticket.2)
  finals : work.finals.reverse =
    ((tickets 0 visited).filter fun ticket => ticket.2.any source.isFinal).map Prod.fst
  covered : ∀ subset ∈ visited, ∀ symbol ∈ source.alphabet, source.advance subset symbol ≠ [] →
    source.advance subset symbol ∈ work.known
  distinct : work.known.Nodup
  reached : ∀ subset ∈ work.known, Reached source subset

theorem stage_initial (source : Automaton) :
    Stage source [] [source.silentClosure [source.start]] (initial source) where
  known := rfl
  first := rfl
  pending := rfl
  rows := rfl
  finals := rfl
  covered := by simp
  distinct := List.nodup_singleton _
  reached := by
    intro subset member
    cases List.mem_singleton.mp member
    exact reached_start source

section Stages

variable {source : Automaton} {visited waiting : List (List Nat)} {work : Exploration}

/-- The states with rows are those of the visited sets. -/
theorem Stage.numbers (stage : Stage source visited waiting work) :
    work.rows.reverse.map Prod.fst = List.range visited.length := by
  rw [stage.rows, List.map_map]
  exact map_fst_tickets visited

theorem Stage.nodup_rows (stage : Stage source visited waiting work) :
    ((work.rows.reverse.filter fun row => row.2 ≠ []).map Prod.fst).Nodup :=
  (stage.numbers ▸ List.nodup_range).sublist (List.filter_sublist.map Prod.fst)

theorem Stage.finals_sublist (stage : Stage source visited waiting work) :
    work.finals.reverse.Sublist (List.range visited.length) := by
  rw [stage.finals, ← map_fst_tickets]
  exact List.filter_sublist.map Prod.fst

end Stages

/-- A visit takes the first ticket, writes its row and grows by what it discovers. -/
theorem visit_eq (source : Automaton) {work : Exploration} {place : Nat} {subset : List Nat}
    {rest : List (Nat × List Nat)} (head : work.pending = (place, subset) :: rest) :
    ∃ added, Discovery source subset source.alphabet.items work.known added ∧
      visit source work =
        { known := work.known ++ added
          pending := rest ++ tickets work.known.length added
          rows := (place,
            edgesFrom source (work.known ++ added) source.alphabet.items subset) :: work.rows
          finals := if subset.any source.isFinal then place :: work.finals else work.finals } := by
  obtain ⟨added, found, result⟩ := follow_eq source subset source.alphabet.items
    { work with pending := rest }
  refine ⟨added, found, ?_⟩
  unfold visit
  rw [head]
  simp only [result]
  rfl

theorem tickets_snoc (visited : List (List Nat)) (subset : List Nat) :
    tickets 0 (visited ++ [subset]) = tickets 0 visited ++ [(visited.length, subset)] := by
  rw [tickets_append, Nat.zero_add]
  rfl

theorem stage_visit {source : Automaton} {visited waiting : List (List Nat)} {subset : List Nat}
    {work : Exploration} (stage : Stage source visited (subset :: waiting) work) :
    ∃ added, Discovery source subset source.alphabet.items (visited ++ subset :: waiting) added ∧
      Stage source (visited ++ [subset]) (waiting ++ added) (visit source work) := by
  have head : work.pending = (visited.length, subset) :: tickets (visited.length + 1) waiting := by
    rw [stage.pending, tickets_cons]
  have origin : Reached source subset := by
    apply stage.reached
    rw [stage.known]
    exact List.mem_append_right visited List.mem_cons_self
  obtain ⟨added, found, after⟩ := visit_eq source head
  refine ⟨added, stage.known ▸ found, ?_⟩
  rw [after]
  constructor
  case known => simp [stage.known]
  case first =>
    rw [List.getElem?_append_left (List.getElem?_eq_some_iff.mp stage.first).1]
    exact stage.first
  case pending => simp [stage.known, tickets_append, Nat.add_comm, Nat.add_left_comm]
  case rows =>
    rw [List.reverse_cons, stage.rows, tickets_snoc, List.map_append, List.map_singleton]
    congr 1
    -- a row written before stays as it is: all it leads to was known at the time
    apply List.map_congr_left
    rintro ⟨place, earlier⟩ member
    have visitedBefore := List.mem_of_getElem? (mem_tickets.mp member)
    rw [edgesFrom_append (stage.covered earlier visitedBefore) added]
  case finals =>
    rw [tickets_snoc, List.filter_append, List.map_append, ← stage.finals]
    by_cases accepting : subset.any source.isFinal = true <;> simp [accepting]
  case covered =>
    intro other member symbol symbols moves
    rcases List.mem_append.mp member with earlier | single
    · exact List.mem_append_left added (stage.covered other earlier symbol symbols moves)
    · cases List.mem_singleton.mp single
      exact found.covers symbol symbols moves
  case distinct => exact found.distinct stage.distinct
  case reached =>
    intro other member
    rcases List.mem_append.mp member with earlier | new
    · exact stage.reached other earlier
    · -- a discovered set is the advance of the visited one, so one more symbol reaches it
      obtain ⟨filled, symbol, symbols, reaches⟩ := found.leads other new
      subst reaches
      exact reached_advance origin symbols filled

def Kept (source : Automaton) (holds : List (List Nat) → List (List Nat) → Prop) : Prop :=
  ∀ ⦃visited waiting : List (List Nat)⦄ ⦃subset : List Nat⦄ ⦃added : List (List Nat)⦄,
    Discovery source subset source.alphabet.items (visited ++ subset :: waiting) added →
      holds visited (subset :: waiting) → holds (visited ++ [subset]) (waiting ++ added)

/-- A run of visits ends with no set waiting, or it has made them all. -/
theorem stage_explore {source : Automaton} {holds : List (List Nat) → List (List Nat) → Prop}
    (kept : Kept source holds) {visited waiting : List (List Nat)} {work : Exploration}
    (visits : Nat) (stage : Stage source visited waiting work) (known : holds visited waiting) :
    ∃ before after, Stage source before after (explore source visits work) ∧ holds before after ∧
      (after = [] ∨ before.length = visited.length + visits) := by
  induction visits generalizing visited waiting work with
  | zero => exact ⟨visited, waiting, stage, known, Or.inr rfl⟩
  | succ visits ih =>
    cases waiting with
    | nil =>
      have idle : work.pending = [] := stage.pending
      have same : explore source (visits + 1) work = work := by
        simp [explore, idle]
      rw [same]
      exact ⟨visited, [], stage, known, Or.inl rfl⟩
    | cons subset rest =>
      have head : work.pending = (visited.length, subset) :: tickets (visited.length + 1) rest := by
        rw [stage.pending, tickets_cons]
      have next : explore source (visits + 1) work = explore source visits (visit source work) := by
        simp [explore, head]
      obtain ⟨added, found, later⟩ := stage_visit stage
      obtain ⟨before, after, final, holding, progress⟩ := ih later (kept found known)
      refine ⟨before, after, next ▸ final, holding, progress.imp_right fun counted => ?_⟩
      rw [counted, List.length_append, List.length_singleton]
      omega

theorem target_of_path {source : Automaton} {first last : Nat} {word : List Char}
    (path : source.Path first word last) :
    last = first ∨ ∃ before symbol, source.HasEdge before symbol last := by
  induction path with
  | here => exact Or.inl rfl
  | silent edge _ ih =>
    rcases ih with same | entered
    · subst same
      exact Or.inr ⟨_, _, edge⟩
    · exact Or.inr entered
  | reading edge _ ih =>
    rcases ih with same | entered
    · subst same
      exact Or.inr ⟨_, _, edge⟩
    · exact Or.inr entered

theorem mem_reachableStates {source : Automaton} {state : Nat} :
    state ∈ reachableStates source ↔
      state = source.start ∨ ∃ before symbol, source.HasEdge before symbol state := by
  rw [reachableStates, Ascending.mem_ofList, List.mem_cons, List.mem_flatMap]
  refine or_congr_right ⟨?_, ?_⟩
  · rintro ⟨⟨before, transitions⟩, entry, member⟩
    obtain ⟨⟨symbol, _⟩, listed, same⟩ := List.mem_map.mp member
    cases same
    exact ⟨before, symbol, OrderedTable.mem_valuesAt.mpr ⟨transitions, entry, listed⟩⟩
  · rintro ⟨before, symbol, edge⟩
    obtain ⟨transitions, entry, listed⟩ := OrderedTable.mem_valuesAt.mp edge
    exact ⟨_, entry, List.mem_map_of_mem listed⟩

theorem mem_reachableStates_of_path {source : Automaton} {word : List Char} {state : Nat}
    (path : source.Path source.start word state) : state ∈ reachableStates source :=
  mem_reachableStates.mpr (target_of_path path)

theorem pairwise_active (source : Automaton) (word : List Char) :
    (source.active word).Pairwise (· < ·) := by
  induction word using List.reverseRecOn with
  | nil => exact Automaton.pairwise_silentClosure source _
  | append_singleton word symbol _ =>
    rw [active_append]
    exact Automaton.pairwise_silentClosure source _

theorem sublist_of_reached {source : Automaton} {subset : List Nat}
    (reached : Reached source subset) : subset.Sublist (reachableStates source) := by
  obtain ⟨_, word, _, same⟩ := reached
  subst same
  have listed : source.active word ⊆ reachableStates source :=
    fun state member => mem_reachableStates_of_path (Automaton.mem_active.mp member)
  have ascending := pairwise_active source word
  exact List.sublist_of_subperm_of_pairwise (List.subperm_of_subset ascending.nodup listed)
    ascending (Ascending.pairwise_ofList _)

theorem length_known_le {source : Automaton} {visited waiting : List (List Nat)}
    {work : Exploration} (stage : Stage source visited waiting work) :
    work.known.length ≤ Nat.pow 2 (reachableStates source).length := by
  rw [Nat.pow_eq, ← List.length_sublists]
  apply stage.distinct.length_le_of_subset
  intro subset member
  exact List.mem_sublists.mpr (sublist_of_reached (stage.reached subset member))

/-- The exploration visits every set that it discovers, and keeps what no visit loses. -/
theorem holds_explored {source : Automaton} {holds : List (List Nat) → List (List Nat) → Prop}
    (kept : Kept source holds) (start : holds [] [source.silentClosure [source.start]]) :
    Stage source (explored source).known [] (explored source) ∧
      holds (explored source).known [] := by
  obtain ⟨visited, waiting, stage, holding, ended⟩ :=
    stage_explore kept (Nat.pow 2 (reachableStates source).length) (stage_initial source) start
  change Stage source visited waiting (explored source) at stage
  have done : waiting = [] := by
    rcases ended with empty | counted
    · exact empty
    · -- as many visited sets as there are subsets leave no place for one that waits
      have bound := length_known_le stage
      rw [stage.known, List.length_append] at bound
      simp only [List.length_nil, Nat.zero_add] at counted
      exact List.eq_nil_of_length_eq_zero (by omega)
  subst done
  have same : (explored source).known = visited := by simpa using stage.known
  exact same.symm ▸ ⟨stage, holding⟩

theorem stage_explored (source : Automaton) :
    Stage source (explored source).known [] (explored source) := by
  have kept : Kept source fun _ _ => True := fun _ _ _ _ _ _ => trivial
  exact (holds_explored kept trivial).1

end Recognizer.Dfa
