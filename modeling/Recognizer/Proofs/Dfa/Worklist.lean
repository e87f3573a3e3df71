import Mathlib.Data.Set.Card
import Recognizer.Proofs.Collection
import Recognizer.Proofs.Dfa.Exploration

/-!
The queue of an exploration. Visits take sets from its front, and what a visit discovers joins its
end; so the sets leave it in the order in which they joined. A set that has a number never joins
again, and the number of a set is its place among all that joined. This is why the queue runs empty
after as many visits as there are states. A loop that enters each state, each final state and each
edge into the automaton when it comes to it makes the same rounds, and ends with the same automaton
as the exploration whose parts are put together in the end.
-/

namespace Recognizer.Dfa

variable {source : Automaton}

/-- Visits until no set waits, with what was taken from the queue and what joined it on the way. -/
inductive Drains (source : Automaton) :
    Exploration → List (Nat × List Nat) → List (Nat × List Nat) → Exploration → Prop
  | idle {work : Exploration} : work.pending = [] → Drains source work [] [] work
  | visit {work last : Exploration} {ticket : Nat × List Nat}
      {rest added taken joined : List (Nat × List Nat)} :
      work.pending = ticket :: rest → (visit source work).pending = rest ++ added →
        Drains source (visit source work) taken joined last →
          Drains source work (ticket :: taken) (added ++ joined) last

/-- Every visit is determined by the queue that it finds. -/
theorem Drains.unique {work first last : Exploration}
    {taken joined takenAgain joinedAgain : List (Nat × List Nat)}
    (drains : Drains source work taken joined first)
    (again : Drains source work takenAgain joinedAgain last) :
    takenAgain = taken ∧ joinedAgain = joined ∧ last = first := by
  induction drains generalizing takenAgain joinedAgain last with
  | idle empty =>
    cases again with
    | idle => exact ⟨rfl, rfl, rfl⟩
    | visit head => cases empty.symm.trans head
  | visit head grown _ ih =>
    cases again with
    | idle empty => cases empty.symm.trans head
    | visit headAgain grownAgain later =>
      cases head.symm.trans headAgain
      have sameAdded := List.append_cancel_left (grownAgain.symm.trans grown)
      obtain ⟨sameTaken, sameJoined, sameLast⟩ := ih later
      rw [sameAdded, sameTaken, sameJoined, sameLast]
      exact ⟨rfl, rfl, rfl⟩

theorem tickets_eq_nil {first : Nat} {subsets : List (List Nat)}
    (empty : tickets first subsets = []) : subsets = [] := by
  cases subsets with
  | nil => rfl
  | cons subset rest => cases empty

/-- A run that ends with no set waiting drains the queue: first the sets that wait, then those that
are discovered meanwhile, each with its number. -/
theorem drains_of_stage (visits : Nat) {visited waiting : List (List Nat)} {work : Exploration}
    (stage : Stage source visited waiting work)
    (ended : (explore source visits work).pending = []) :
    ∃ found, (explore source visits work).known = visited ++ waiting ++ found ∧
      Drains source work (tickets visited.length (waiting ++ found))
        (tickets (visited.length + waiting.length) found) (explore source visits work) := by
  induction visits generalizing visited waiting work with
  | zero =>
    have empty : waiting = [] := tickets_eq_nil (stage.pending.symm.trans ended)
    subst empty
    exact ⟨[], by rw [List.append_nil]; exact stage.known, Drains.idle ended⟩
  | succ visits ih =>
    cases waiting with
    | nil =>
      have idle : work.pending = [] := stage.pending
      have same : explore source (visits + 1) work = work := by simp [explore, idle]
      rw [same]
      exact ⟨[], by rw [List.append_nil]; exact stage.known, Drains.idle idle⟩
    | cons subset rest =>
      have head : work.pending = (visited.length, subset) :: tickets (visited.length + 1) rest := by
        rw [stage.pending, tickets_cons]
      have next : explore source (visits + 1) work = explore source visits (visit source work) := by
        simp [explore, head]
      rw [next] at ended ⊢
      obtain ⟨added, _, later⟩ := stage_visit stage
      obtain ⟨found, known, drains⟩ := ih later ended
      have grown : (visit source work).pending = tickets (visited.length + 1) rest ++
          tickets (visited.length + 1 + rest.length) added := by
        rw [later.pending, List.length_append, List.length_singleton, tickets_append]
      -- the numbers go on where those of the waiting sets end
      have ends : visited.length + (subset :: rest).length = visited.length + 1 + rest.length := by
        rw [List.length_cons]
        omega
      have taken : tickets visited.length (subset :: rest ++ (added ++ found)) =
          (visited.length, subset) ::
            tickets (visited ++ [subset]).length (rest ++ added ++ found) := by
        rw [List.cons_append, tickets_cons, List.length_append, List.append_assoc]
        rfl
      have joined : tickets (visited.length + (subset :: rest).length) (added ++ found) =
          tickets (visited.length + 1 + rest.length) added ++
            tickets ((visited ++ [subset]).length + (rest ++ added).length) found := by
        rw [ends, tickets_append, List.length_append, List.length_append, List.length_singleton,
          Nat.add_assoc _ rest.length]
      refine ⟨added ++ found, by simpa using known, ?_⟩
      rw [taken, joined]
      exact Drains.visit head grown drains

theorem ncard_reachableStates (source : Automaton) :
    {state | state = source.start ∨ ∃ before symbol, source.HasEdge before symbol state}.ncard =
      (reachableStates source).length := by
  have distinct : (reachableStates source).Nodup := (Ascending.pairwise_ofList _).nodup
  have same : {state | state = source.start ∨ ∃ before symbol, source.HasEdge before symbol state} =
      ((reachableStates source).toFinset : Set Nat) := by
    ext state
    rw [List.coe_toFinset]
    exact mem_reachableStates.symm
  rw [same, Set.ncard_coe_finset, List.toFinset_card_of_nodup distinct]

theorem map_snd_tickets (first : Nat) (subsets : List (List Nat)) :
    (tickets first subsets).map Prod.snd = subsets := by
  rw [tickets, List.map_map]
  exact List.zipIdx_map_fst first subsets

theorem getElem?_tickets {subsets : List (List Nat)} {place number : Nat} {subset : List Nat} :
    (tickets 0 subsets)[place]? = some (number, subset) ↔
      number = place ∧ subsets[place]? = some subset := by
  rw [tickets, List.getElem?_map, List.getElem?_zipIdx]
  cases subsets[place]? with
  | none => simp
  | some other => simp [eq_comm]

theorem drains_explored (source : Automaton) :
    ∃ found, (explored source).known = source.silentClosure [source.start] :: found ∧
      Drains source (initial source) (tickets 0 (explored source).known) (tickets 1 found)
        (explored source) := by
  have ended : (explored source).pending = [] := (stage_explored source).pending
  obtain ⟨found, known, drains⟩ := drains_of_stage _ (stage_initial source) ended
  have listed : (explored source).known = source.silentClosure [source.start] :: found := known
  refine ⟨found, listed, ?_⟩
  rw [listed]
  exact drains

structure Drained (source : Automaton) (taken joined : List (Nat × List Nat))
    (last : Exploration) : Prop where
  last : assemble source last = determinize source
  once : taken = (initial source).pending ++ joined
  distinct : (taken.map Prod.snd).Nodup
  numbered : ∀ place number subset, taken[place]? = some (number, subset) ↔
    number = place ∧ (determinize source).subset? place = some subset
  visits : taken.length = (determinize source).automaton.states.items.length
  bound : taken.length ≤
    2 ^ {state | state = source.start ∨ ∃ before symbol, source.HasEdge before symbol state}.ncard

/-- The visits come to an end for every automaton, whatever its edges are. Every set that joins the
queue leaves it once and in its turn, none joins twice, and the one that leaves at a place is the
one that the state of this number stands for. So there are as many visits as states, and no more
than there are sets of states that are the start or are entered by an edge. -/
theorem drains_exact (source : Automaton) :
    (∃ taken joined last, Drains source (initial source) taken joined last) ∧
      ∀ taken joined last, Drains source (initial source) taken joined last →
        Drained source taken joined last := by
  have stage := stage_explored source
  obtain ⟨found, listed, drains⟩ := drains_explored source
  refine ⟨⟨_, _, _, drains⟩, fun taken joined last again => ?_⟩
  obtain ⟨sameTaken, sameJoined, sameLast⟩ := drains.unique again
  subst sameTaken sameJoined sameLast
  have size : (tickets 0 (explored source).known).length = (explored source).known.length := by
    rw [← List.length_map (f := Prod.snd), map_snd_tickets]
  constructor
  case last => rfl
  case once =>
    rw [listed, tickets_cons]
    rfl
  case distinct =>
    rw [map_snd_tickets]
    exact stage.distinct
  case numbered => exact fun _ _ _ => getElem?_tickets
  case visits =>
    rw [size]
    exact List.length_range.symm
  case bound =>
    rw [size, ncard_reachableStates]
    exact length_known_le stage

/-- What a loop works on that adds one part after another to the automaton. -/
structure Worklist where
  known : OrderedSet (List Nat)
  pending : List (Nat × List Nat)
  automaton : Automaton

namespace Worklist

def begin (source : Automaton) : Worklist :=
  let subset := source.silentClosure [source.start]
  { known := OrderedSet.empty.insert subset
    pending := [(0, subset)]
    automaton := source.alphabet.items.foldl Automaton.addSymbol (Automaton.startingAt 0) }

def enter (work : Worklist) (subset : List Nat) : Worklist :=
  if subset ∈ work.known then work
  else
    { known := work.known.insert subset
      pending := work.pending ++ [(work.known.items.length, subset)]
      automaton := work.automaton.addState work.known.items.length }

def link (source : Automaton) (state : Nat) (subset : List Nat) (work : Worklist) (symbol : Char) :
    Worklist :=
  let target := source.advance subset symbol
  if target = [] then work
  else
    let entered := work.enter target
    { entered with
      automaton := entered.automaton.addTransition state
        (.reading symbol (entered.known.items.idxOf target)) }

def settle (source automaton : Automaton) (state : Nat) (subset : List Nat) : Automaton :=
  if subset.any source.isFinal then automaton.addFinal state else automaton

def round (source : Automaton) (work : Worklist) : Worklist :=
  match work.pending with
  | [] => work
  | (state, subset) :: rest =>
    source.alphabet.items.foldl (link source state subset)
      { work with pending := rest, automaton := settle source work.automaton state subset }

inductive Ends (source : Automaton) : Worklist → Worklist → Prop
  | idle {work : Worklist} : work.pending = [] → Ends source work work
  | round {work last : Worklist} : work.pending ≠ [] → Ends source (round source work) last →
      Ends source work last

theorem Ends.unique {work first last : Worklist} (ends : Ends source work first)
    (again : Ends source work last) : last = first := by
  induction ends with
  | idle empty =>
    cases again with
    | idle => rfl
    | round waiting => exact absurd empty waiting
  | round waiting _ ih =>
    cases again with
    | idle empty => exact absurd empty waiting
    | round _ later => exact ih later

structure Mirrors (work : Worklist) (exploration : Exploration) : Prop where
  known : work.known.items = exploration.known
  pending : work.pending = exploration.pending
  states : work.automaton.states.items = List.range exploration.known.length
  edges : work.automaton.transitions.entries = exploration.rows.reverse.filter (·.2 ≠ [])

/-- An exploration in the middle of a visit, with the row of edges found so far. -/
def withRow (exploration : Exploration) (state : Nat) (row : List Transition) : Exploration :=
  { exploration with rows := (state, row) :: exploration.rows }

variable {work : Worklist} {exploration : Exploration} {state : Nat} {subset : List Nat}
  {row : List Transition} {symbol : Char}

theorem mirrors_enter (mirrors : Mirrors work (withRow exploration state row))
    (subset : List Nat) :
    Mirrors (work.enter subset) (withRow (number exploration subset).2 state row) ∧
      (work.enter subset).known.items.idxOf subset = (number exploration subset).1 := by
  have same : work.known.items = exploration.known := mirrors.known
  by_cases known : subset ∈ exploration.known
  · have member : subset ∈ work.known := OrderedSet.mem_items.mp (same ▸ known)
    rw [number_known known, enter, if_pos member, same]
    exact ⟨mirrors, rfl⟩
  · have fresh : subset ∉ work.known := by rwa [← OrderedSet.mem_items, same]
    have grown : (work.known.insert subset).items = exploration.known ++ [subset] := by
      rw [OrderedSet.items_insert, same, if_neg known]
    have unused : exploration.known.length ∉ work.automaton.states.items := by
      rw [mirrors.states]
      simp [withRow]
    rw [number_fresh known, enter, if_neg fresh, same]
    refine ⟨⟨grown, congrArg (· ++ _) mirrors.pending, ?_, mirrors.edges⟩, ?_⟩
    · change (work.automaton.states.insert exploration.known.length).items =
        List.range (exploration.known ++ [subset]).length
      rw [OrderedSet.items_insert, if_neg unused, mirrors.states, List.length_append,
        List.length_singleton, List.range_succ]
      rfl
    · change (work.known.insert subset).items.idxOf subset = exploration.known.length
      rw [grown]
      exact idxOf_append_self known []

theorem mirrors_addTransition (mirrors : Mirrors work (withRow exploration state row))
    (fresh : state ∉ exploration.rows.map Prod.fst) (transition : Transition) :
    Mirrors { work with automaton := work.automaton.addTransition state transition }
      (withRow exploration state (row ++ [transition])) where
  known := mirrors.known
  pending := mirrors.pending
  states := mirrors.states
  edges := by
    have unlisted : state ∉ (exploration.rows.reverse.filter (·.2 ≠ [])).map Prod.fst := by
      intro member
      obtain ⟨entry, listed, same⟩ := List.mem_map.mp member
      exact fresh (same ▸ List.mem_map_of_mem (List.mem_reverse.mp (List.mem_of_mem_filter listed)))
    have edges := mirrors.edges
    rw [withRow, List.reverse_cons, List.filter_append] at edges
    change OrderedTable.extendEntries state [transition] work.automaton.transitions.entries = _
    rw [edges, OrderedTable.extendEntries_append unlisted, withRow, List.reverse_cons,
      List.filter_append]
    by_cases bare : row = [] <;> simp [bare, OrderedTable.extendEntries]

theorem rows_number (exploration : Exploration) (subset : List Nat) :
    (number exploration subset).2.rows = exploration.rows := by
  unfold number
  split <;> rfl

theorem link_moving (moves : source.advance subset symbol ≠ []) :
    link source state subset work symbol =
      { work.enter (source.advance subset symbol) with
        automaton := (work.enter (source.advance subset symbol)).automaton.addTransition state
          (.reading symbol ((work.enter (source.advance subset symbol)).known.items.idxOf
            (source.advance subset symbol))) } :=
  if_neg moves

/-- Linking symbols one by one adds the row of edges that following them gives. -/
theorem mirrors_foldl_link (source : Automaton) (subset : List Nat) (symbols : List Char)
    (mirrors : Mirrors work (withRow exploration state row))
    (fresh : state ∉ exploration.rows.map Prod.fst) :
    Mirrors (symbols.foldl (link source state subset) work)
      (withRow (follow source subset symbols exploration).2 state
        (row ++ (follow source subset symbols exploration).1)) := by
  induction symbols generalizing work exploration row with
  | nil => simpa [follow] using mirrors
  | cons symbol rest ih =>
    rw [List.foldl_cons]
    by_cases stuck : source.advance subset symbol = []
    · rw [follow_cons_stuck stuck, link, if_pos stuck]
      exact ih mirrors fresh
    · obtain ⟨entered, numbered⟩ := mirrors_enter mirrors (source.advance subset symbol)
      have apart : state ∉ (number exploration (source.advance subset symbol)).2.rows.map
          Prod.fst := by rwa [rows_number]
      have linked := ih (mirrors_addTransition entered apart
        (.reading symbol (number exploration (source.advance subset symbol)).1)) apart
      rw [follow_cons_moving stuck, link_moving stuck, numbered]
      rwa [List.append_assoc] at linked

structure Keeps (before after : Automaton) : Prop where
  alphabet : after.alphabet = before.alphabet
  start : after.start = before.start
  finals : after.finals = before.finals

theorem keeps_link (source : Automaton) (state : Nat) (subset : List Nat) (work : Worklist)
    (symbol : Char) : Keeps work.automaton (link source state subset work symbol).automaton := by
  unfold link enter
  dsimp only
  split
  · exact ⟨rfl, rfl, rfl⟩
  · split <;> exact ⟨rfl, rfl, rfl⟩

theorem keeps_foldl_link (source : Automaton) (state : Nat) (subset : List Nat) (work : Worklist)
    (symbols : List Char) :
    Keeps work.automaton (symbols.foldl (link source state subset) work).automaton := by
  induction symbols generalizing work with
  | nil => exact ⟨rfl, rfl, rfl⟩
  | cons symbol rest ih =>
    have first := keeps_link source state subset work symbol
    have later := ih (link source state subset work symbol)
    exact ⟨later.alphabet.trans first.alphabet, later.start.trans first.start,
      later.finals.trans first.finals⟩

/-- Between two rounds the loop has all parts of what the exploration makes. -/
structure Matches (source : Automaton) (work : Worklist) (exploration : Exploration) : Prop
    extends Mirrors work exploration where
  alphabet : work.automaton.alphabet = source.alphabet
  start : work.automaton.start = 0
  finals : work.automaton.finals.items = exploration.finals.reverse

theorem foldl_addSymbol (symbols : List Char) (automaton : Automaton) :
    symbols.foldl Automaton.addSymbol automaton =
      { automaton with alphabet := symbols.foldl OrderedSet.insert automaton.alphabet } := by
  induction symbols generalizing automaton with
  | nil => rfl
  | cons symbol rest ih =>
    rw [List.foldl_cons, ih]
    rfl

theorem matches_begin (source : Automaton) : Matches source (begin source) (initial source) := by
  have whole : source.alphabet.items.foldl OrderedSet.insert OrderedSet.empty = source.alphabet :=
    zero_add source.alphabet
  have added : (begin source).automaton =
      { Automaton.startingAt 0 with alphabet := source.alphabet } := by
    rw [begin, foldl_addSymbol]
    exact congrArg (fun alphabet => { Automaton.startingAt 0 with alphabet := alphabet }) whole
  constructor
  · refine ⟨rfl, rfl, ?_, ?_⟩ <;> rw [added] <;> rfl
  · rw [added]
  · rw [added]
    rfl
  · rw [added]
    rfl

theorem settle_eq (source automaton : Automaton) (state : Nat) (subset : List Nat) :
    settle source automaton state subset =
      { automaton with finals := (settle source automaton state subset).finals } := by
  unfold settle
  split <;> rfl

theorem finals_settle {automaton : Automaton} {finals : List Nat}
    (same : automaton.finals.items = finals.reverse) (undecided : state ∉ finals) :
    (settle source automaton state subset).finals.items =
      (if subset.any source.isFinal then state :: finals else finals).reverse := by
  by_cases accepting : subset.any source.isFinal = true
  · have fresh : state ∉ automaton.finals.items := by
      rw [same]
      exact mt List.mem_reverse.mp undecided
    rw [settle, if_pos accepting, if_pos accepting, Automaton.addFinal, OrderedSet.items_insert,
      if_neg fresh, same, List.reverse_cons]
  · rw [settle, if_neg accepting, if_neg accepting, same]

/-- One round is one visit. -/
theorem matches_round {rest : List (Nat × List Nat)} (matched : Matches source work exploration)
    (head : exploration.pending = (state, subset) :: rest)
    (unvisited : state ∉ exploration.rows.map Prod.fst) (undecided : state ∉ exploration.finals) :
    Matches source (round source work) (visit source exploration) := by
  have taken : work.pending = (state, subset) :: rest := matched.pending.trans head
  -- the row of a state is empty when its round begins
  have opened : Mirrors
      { work with pending := rest, automaton := settle source work.automaton state subset }
      (withRow { exploration with pending := rest } state []) := by
    refine ⟨matched.known, rfl, ?_, ?_⟩
    · exact (congrArg (·.states.items) (settle_eq ..)).trans matched.states
    · rw [withRow, List.reverse_cons, List.filter_append]
      exact (congrArg (·.transitions.entries) (settle_eq ..)).trans
        (matched.edges.trans (List.append_nil _).symm)
  have followed := mirrors_foldl_link source subset source.alphabet.items opened unvisited
  have kept := keeps_foldl_link source state subset
    { work with pending := rest, automaton := settle source work.automaton state subset }
    source.alphabet.items
  obtain ⟨added, _, result⟩ := follow_eq source subset source.alphabet.items
    { exploration with pending := rest }
  rw [round, taken, visit, head]
  dsimp only
  rw [result] at followed ⊢
  constructor
  · exact ⟨followed.known, followed.pending, followed.states, followed.edges⟩
  · exact kept.alphabet.trans ((congrArg Automaton.alphabet (settle_eq ..)).trans matched.alphabet)
  · exact kept.start.trans ((congrArg Automaton.start (settle_eq ..)).trans matched.start)
  · rw [kept.finals]
    exact finals_settle matched.finals undecided

/-- A loop that matches a run of visits ends where they end. -/
theorem ends_of_stage (visits : Nat) {visited waiting : List (List Nat)}
    (stage : Stage source visited waiting exploration) (matched : Matches source work exploration)
    (ended : (explore source visits exploration).pending = []) :
    ∃ last, Ends source work last ∧ Matches source last (explore source visits exploration) := by
  induction visits generalizing visited waiting work exploration with
  | zero => exact ⟨work, Ends.idle (matched.pending.trans ended), matched⟩
  | succ visits ih =>
    cases waiting with
    | nil =>
      have idle : exploration.pending = [] := stage.pending
      have same : explore source (visits + 1) exploration = exploration := by simp [explore, idle]
      rw [same]
      exact ⟨work, Ends.idle (matched.pending.trans idle), matched⟩
    | cons subset rest =>
      have head : exploration.pending =
          (visited.length, subset) :: tickets (visited.length + 1) rest := by
        rw [stage.pending, tickets_cons]
      have next : explore source (visits + 1) exploration =
          explore source visits (visit source exploration) := by
        simp [explore, head]
      -- the states with rows are those of the visited sets
      have unvisited : visited.length ∉ exploration.rows.map Prod.fst := by
        rw [← List.mem_reverse, ← List.map_reverse, stage.numbers]
        exact List.not_mem_range_self
      have undecided : visited.length ∉ exploration.finals := by
        rw [← List.mem_reverse]
        exact fun member => List.not_mem_range_self (stage.finals_sublist.subset member)
      obtain ⟨added, _, later⟩ := stage_visit stage
      rw [next] at ended ⊢
      obtain ⟨last, ends, matching⟩ :=
        ih later (matches_round matched head unvisited undecided) ended
      have waits : work.pending ≠ [] := by
        rw [matched.pending, head]
        exact List.cons_ne_nil _ _
      exact ⟨last, Ends.round waits ends, matching⟩

theorem automaton_of_matches (matched : Matches source work (explored source)) :
    work.automaton = (determinize source).automaton := by
  have stage := stage_explored source
  have finals : (explored source).finals.reverse.Nodup :=
    List.nodup_range.sublist stage.finals_sublist
  obtain ⟨known, pending, automaton⟩ := work
  obtain ⟨states, alphabet, transitions, start, accepting⟩ := automaton
  rw [determinize, assemble, Automaton.mk.injEq]
  exact ⟨OrderedSet.eq_of_items matched.states, matched.alphabet,
    OrderedTable.eq_of_entries
      (matched.edges.trans (OrderedTable.entries_ofEntries stage.nodup_rows).symm),
    matched.start,
    OrderedSet.eq_of_items (matched.finals.trans (OrderedSet.items_ofList finals).symm)⟩

/-- The loop ends, and only with the sets and the automaton of the determinized source. -/
theorem ends_iff (source : Automaton) (last : Worklist) :
    Ends source (begin source) last ↔
      last.known.items = (determinize source).subsets ∧ last.pending = [] ∧
        last.automaton = (determinize source).automaton := by
  have idle : (explored source).pending = [] := (stage_explored source).pending
  obtain ⟨reached, ends, matched⟩ :=
    ends_of_stage _ (stage_initial source) (matches_begin source) idle
  have pending : reached.pending = [] := matched.pending.trans idle
  have automaton := automaton_of_matches matched
  constructor
  · intro again
    rw [ends.unique again]
    exact ⟨matched.known, pending, automaton⟩
  · rintro ⟨sameKnown, samePending, sameAutomaton⟩
    have same : last = reached := by
      obtain ⟨known, waiting, parts⟩ := last
      rw [Worklist.mk.injEq]
      exact ⟨OrderedSet.eq_of_items (sameKnown.trans matched.known.symm),
        samePending.trans pending.symm, sameAutomaton.trans automaton.symm⟩
    exact same ▸ ends

end Worklist

end Recognizer.Dfa
