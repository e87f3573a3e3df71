import Recognizer.Automaton.Basic

/-!
An automaton run on all its paths at once. A set of active states is an ascending list, so equal
sets are equal lists. Closing a set works on a list of pending states: every step takes one from it,
and a state adds the targets of its silent edges only when it is first closed, so the edges that are
still open and the pending states bound the work that is left.
-/

namespace Recognizer

namespace Ascending

def insert (state : Nat) : List Nat → List Nat
  | [] => [state]
  | first :: rest =>
    if state < first then state :: first :: rest
    else if state = first then first :: rest
    else first :: insert state rest

def ofList (states : List Nat) : List Nat := states.foldr insert []

@[simp] theorem mem_insert {state other : Nat} {states : List Nat} :
    other ∈ insert state states ↔ other = state ∨ other ∈ states := by
  induction states with
  | nil => simp [insert]
  | cons first rest ih =>
    unfold insert
    split
    · simp
    · split
      · next same => simp [same]
      · simp only [List.mem_cons, ih]
        exact or_left_comm

@[simp] theorem mem_ofList {state : Nat} {states : List Nat} :
    state ∈ ofList states ↔ state ∈ states := by
  induction states with
  | nil => simp [ofList]
  | cons first rest ih =>
    rw [List.mem_cons, ← ih]
    exact mem_insert

theorem pairwise_insert {state : Nat} {states : List Nat} (ascending : states.Pairwise (· < ·)) :
    (insert state states).Pairwise (· < ·) := by
  induction states with
  | nil => simp [insert]
  | cons first rest ih =>
    rw [List.pairwise_cons] at ascending
    unfold insert
    split
    · next below =>
      refine List.pairwise_cons.mpr ⟨?_, List.pairwise_cons.mpr ascending⟩
      intro other member
      rcases List.mem_cons.mp member with rfl | later
      · exact below
      · exact Nat.lt_trans below (ascending.1 other later)
    · split
      · exact List.pairwise_cons.mpr ascending
      · next notBelow different =>
        refine List.pairwise_cons.mpr ⟨?_, ih ascending.2⟩
        intro other member
        rcases mem_insert.mp member with rfl | later
        · omega
        · exact ascending.1 other later

theorem pairwise_ofList (states : List Nat) : (ofList states).Pairwise (· < ·) := by
  induction states with
  | nil => exact List.Pairwise.nil
  | cons first rest ih => exact pairwise_insert ih

end Ascending

namespace Automaton

def silentTargets (automaton : Automaton) (source : Nat) : List Nat :=
  ((automaton.transitionsFrom source).filter Transition.isSilent).map Transition.target

def openEdges (closed : List Nat) : List (Nat × List Transition) → Nat
  | [] => 0
  | (source, transitions) :: rest =>
    (if source ∈ closed then 0 else transitions.countP Transition.isSilent) +
      openEdges closed rest

theorem openEdges_insert_le (state : Nat) (closed : List Nat)
    (entries : List (Nat × List Transition)) :
    openEdges (Ascending.insert state closed) entries ≤ openEdges closed entries := by
  induction entries with
  | nil => exact Nat.le_refl 0
  | cons entry rest ih =>
    simp only [openEdges, Ascending.mem_insert]
    by_cases known : entry.1 ∈ closed
    · simpa [known] using ih
    · by_cases same : entry.1 = state
      · simp only [same, true_or, if_true]
        omega
      · simp only [known, same, or_self, if_false]
        omega

/-- Closing a state takes its silent edges from the open ones. -/
theorem openEdges_insert (state : Nat) (closed : List Nat) (fresh : state ∉ closed)
    (entries : List (Nat × List Transition)) :
    openEdges (Ascending.insert state closed) entries +
      ((entries.lookup state).getD []).countP Transition.isSilent ≤ openEdges closed entries := by
  induction entries with
  | nil => simp [openEdges]
  | cons entry rest ih =>
    obtain ⟨source, transitions⟩ := entry
    simp only [openEdges, Ascending.mem_insert]
    by_cases same : source = state
    · subst same
      have rest_le := openEdges_insert_le source closed rest
      simp only [List.lookup_cons, beq_self_eq_true, Option.getD_some, true_or, fresh, if_true,
        if_false]
      omega
    · have other : (state == source) = false := beq_false_of_ne (Ne.symm same)
      simp only [List.lookup_cons, other, same, false_or]
      omega

theorem length_silentTargets (automaton : Automaton) (source : Nat) :
    (automaton.silentTargets source).length =
      (automaton.transitionsFrom source).countP Transition.isSilent := by
  rw [silentTargets, List.length_map, List.countP_eq_length_filter]

theorem openEdges_silentTargets (automaton : Automaton) {state : Nat} {closed : List Nat}
    (fresh : state ∉ closed) :
    openEdges (Ascending.insert state closed) automaton.transitions.entries +
        (automaton.silentTargets state).length ≤
      openEdges closed automaton.transitions.entries := by
  rw [length_silentTargets]
  exact openEdges_insert state closed fresh automaton.transitions.entries

def closePending (automaton : Automaton) : List Nat → List Nat → List Nat
  | [], closed => closed
  | state :: pending, closed =>
    if state ∈ closed then automaton.closePending pending closed
    else
      automaton.closePending (automaton.silentTargets state ++ pending)
        (Ascending.insert state closed)
termination_by pending closed => openEdges closed automaton.transitions.entries + pending.length
decreasing_by
  · simp
  · next fresh =>
    have fewer := openEdges_silentTargets automaton fresh
    simp only [List.length_append, List.length_cons]
    omega

def silentClosure (automaton : Automaton) (states : List Nat) : List Nat :=
  automaton.closePending states []

def targetsOn (automaton : Automaton) (symbol : Char) (source : Nat) : List Nat :=
  ((automaton.transitionsFrom source).filter (·.symbol = some symbol)).map Transition.target

def move (automaton : Automaton) (states : List Nat) (symbol : Char) : List Nat :=
  Ascending.ofList (states.flatMap (automaton.targetsOn symbol))

def advance (automaton : Automaton) (states : List Nat) (symbol : Char) : List Nat :=
  automaton.silentClosure (automaton.move states symbol)

def active (automaton : Automaton) (word : List Char) : List Nat :=
  word.foldl automaton.advance (automaton.silentClosure [automaton.start])

def accepts (automaton : Automaton) (word : List Char) : Bool :=
  (automaton.active word).any automaton.isFinal

theorem mem_silentTargets {automaton : Automaton} {source target : Nat} :
    target ∈ automaton.silentTargets source ↔ automaton.HasEdge source none target := by
  unfold silentTargets HasEdge
  rw [List.mem_map]
  constructor
  · rintro ⟨⟨symbol, _⟩, member, rfl⟩
    have parts := List.mem_filter.mp member
    have silent : symbol = none := Option.isNone_iff_eq_none.mp parts.2
    exact silent ▸ parts.1
  · intro edge
    exact ⟨_, List.mem_filter.mpr ⟨edge, rfl⟩, rfl⟩

theorem mem_move {automaton : Automaton} {states : List Nat} {symbol : Char} {target : Nat} :
    target ∈ automaton.move states symbol ↔
      ∃ source ∈ states, automaton.HasEdge source (some symbol) target := by
  unfold move HasEdge
  rw [Ascending.mem_ofList, List.mem_flatMap]
  refine exists_congr fun source => and_congr_right fun _ => ?_
  unfold targetsOn
  rw [List.mem_map]
  constructor
  · rintro ⟨⟨read, _⟩, member, rfl⟩
    have parts := List.mem_filter.mp member
    have same : read = some symbol := of_decide_eq_true parts.2
    exact same ▸ parts.1
  · intro edge
    exact ⟨_, List.mem_filter.mpr ⟨edge, decide_eq_true rfl⟩, rfl⟩

end Automaton

end Recognizer
