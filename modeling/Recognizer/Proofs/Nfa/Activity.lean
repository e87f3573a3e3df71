import Mathlib.Data.List.Sort
import Mathlib.Data.Multiset.AddSub
import Mathlib.Logic.Relation
import Recognizer.Nfa.Simulation

/-!
The active states of a simulation. Closing takes one of the pending states at a time, whichever it
is, and the targets that follow it may join the pending ones without those that are closed already.
No choice lets the steps go on forever, and none changes the outcome: the states that silent edges
reach from the given ones. No silent edge leaves a closure, so a path leaves it only by reading, and
the active states are the ends of the paths that spell the word read so far.
-/

namespace Recognizer.Automaton

section Closing

def SilentlyReaches (automaton : Automaton) : Nat → Nat → Prop :=
  Relation.ReflTransGen fun source target => automaton.HasEdge source none target

theorem silent_path_iff {automaton : Automaton} {source target : Nat} :
    automaton.Path source [] target ↔ automaton.SilentlyReaches source target := by
  constructor
  · intro path
    generalize silent : ([] : List Char) = word at path
    induction path with
    | here => exact Relation.ReflTransGen.refl
    | silent edge _ ih => exact (ih silent).head edge
    | reading => cases silent
  · intro reaches
    induction reaches with
    | refl => exact Path.here source
    | tail _ edge ih => exact ih.append (Path.silent edge (Path.here _))

def SilentlyClosed (automaton : Automaton) (states : List Nat) : Prop :=
  ∀ source ∈ states, ∀ target, automaton.HasEdge source none target → target ∈ states

theorem SilentlyClosed.mem_of_reaches {automaton : Automaton} {states : List Nat}
    (closed : automaton.SilentlyClosed states) {source target : Nat}
    (reaches : automaton.SilentlyReaches source target) (member : source ∈ states) :
    target ∈ states := by
  induction reaches with
  | refl => exact member
  | tail _ edge ih => exact closed _ ih _ edge

structure Frontier where
  pending : Multiset Nat
  closed : List Nat

namespace Frontier

def Holds (frontier : Frontier) (state : Nat) : Prop :=
  state ∈ frontier.closed ∨ state ∈ frontier.pending

/-- The silent edges still to be taken and the states still to be examined. -/
def work (automaton : Automaton) (frontier : Frontier) : Nat :=
  openEdges frontier.closed automaton.transitions.entries + frontier.pending.card

end Frontier

/-- One step. A pending state that is closed already is dropped; another one is closed, and brings
the targets of its silent edges, of which only closed ones may be missing. -/
inductive Closes (automaton : Automaton) : Frontier → Frontier → Prop
  | drop {state : Nat} {rest : Multiset Nat} {closed : List Nat} (known : state ∈ closed) :
      Closes automaton ⟨state ::ₘ rest, closed⟩ ⟨rest, closed⟩
  | close {state : Nat} {added rest : Multiset Nat} {closed : List Nat} (fresh : state ∉ closed)
      (listed : added ≤ automaton.silentTargets state)
      (enough : ∀ target ∈ automaton.silentTargets state,
        target ∈ Ascending.insert state closed ∨ target ∈ added) :
      Closes automaton ⟨state ::ₘ rest, closed⟩ ⟨added + rest, Ascending.insert state closed⟩

structure Spans (automaton : Automaton) (states : List Nat) (frontier : Frontier) : Prop where
  ascending : frontier.closed.Pairwise (· < ·)
  given : ∀ state ∈ states, frontier.Holds state
  reached : ∀ state, frontier.Holds state →
    ∃ source ∈ states, automaton.SilentlyReaches source state
  onward : ∀ source ∈ frontier.closed, ∀ target, automaton.HasEdge source none target →
    frontier.Holds target

variable {automaton : Automaton} {states : List Nat} {before after : Frontier}

theorem holds_closes (step : Closes automaton before after) {state : Nat}
    (held : before.Holds state) : after.Holds state := by
  cases step with
  | drop known =>
    rcases held with old | waits
    · exact Or.inl old
    · rcases Multiset.mem_cons.mp waits with same | waits
      · exact Or.inl (same ▸ known)
      · exact Or.inr waits
  | close fresh listed enough =>
    rcases held with old | waits
    · exact Or.inl (Ascending.mem_insert.mpr (Or.inr old))
    · rcases Multiset.mem_cons.mp waits with same | waits
      · exact Or.inl (Ascending.mem_insert.mpr (Or.inl same))
      · exact Or.inr (Multiset.mem_add.mpr (Or.inr waits))

theorem spans_start (automaton : Automaton) (states : List Nat) :
    Spans automaton states ⟨states, []⟩ where
  ascending := List.Pairwise.nil
  given := fun _ member => Or.inr member
  reached := by
    rintro state (closed | given)
    · cases closed
    · exact ⟨state, given, Relation.ReflTransGen.refl⟩
  onward := List.forall_mem_nil _

theorem spans_closes (step : Closes automaton before after)
    (spans : Spans automaton states before) : Spans automaton states after := by
  have given (state : Nat) (member : state ∈ states) : after.Holds state :=
    holds_closes step (spans.given state member)
  have onward (source : Nat) (member : source ∈ before.closed) (target : Nat)
      (edge : automaton.HasEdge source none target) : after.Holds target :=
    holds_closes step (spans.onward source member target edge)
  cases step with
  | @drop state rest closed known =>
    refine ⟨spans.ascending, given, fun other held => spans.reached other ?_, onward⟩
    exact held.imp_right Multiset.mem_cons_of_mem
  | @close state added rest closed fresh listed enough =>
    obtain ⟨source, member, path⟩ :=
      spans.reached state (Or.inr (Multiset.mem_cons_self state rest))
    refine ⟨Ascending.pairwise_insert spans.ascending, given, ?_, ?_⟩
    · rintro other (closed | waits)
      · rcases Ascending.mem_insert.mp closed with same | old
        · exact ⟨source, member, same ▸ path⟩
        · exact spans.reached other (Or.inl old)
      · rcases Multiset.mem_add.mp waits with new | waits
        · -- one silent edge behind the state that is closed now
          have edge := mem_silentTargets.mp (Multiset.subset_of_le listed new)
          exact ⟨source, member, path.tail edge⟩
        · exact spans.reached other (Or.inr (Multiset.mem_cons_of_mem waits))
    · -- the state that is closed now brings its targets, and the others had theirs before
      intro first closed target edge
      rcases Ascending.mem_insert.mp closed with same | old
      · have follows := enough target (mem_silentTargets.mpr (same ▸ edge))
        exact follows.imp_right fun new => Multiset.mem_add.mpr (Or.inl new)
      · exact onward first old target edge

theorem spans_run (run : Relation.ReflTransGen (Closes automaton) before after)
    (spans : Spans automaton states before) : Spans automaton states after := by
  induction run with
  | refl => exact spans
  | tail _ step ih => exact spans_closes step ih

/-- With nothing pending the closed states are all that silent edges reach, and no others. -/
theorem mem_closed_of_spans {closed : List Nat} (spans : Spans automaton states ⟨0, closed⟩)
    (state : Nat) :
    state ∈ closed ↔ ∃ source ∈ states, automaton.SilentlyReaches source state := by
  have settled {state : Nat} (held : Frontier.Holds ⟨0, closed⟩ state) : state ∈ closed :=
    held.resolve_right (Multiset.notMem_zero state)
  have complete : automaton.SilentlyClosed closed := fun source member target edge =>
    settled (spans.onward source member target edge)
  constructor
  · intro member
    exact spans.reached state (Or.inl member)
  · rintro ⟨source, given, reaches⟩
    exact complete.mem_of_reaches reaches (settled (spans.given source given))

theorem work_closes (step : Closes automaton before after) :
    after.work automaton < before.work automaton := by
  cases step with
  | drop known => simp [Frontier.work]
  | close fresh listed enough =>
    -- every target that joins is paid for by an edge that is open no more
    have fewer := openEdges_silentTargets automaton fresh
    have few := Multiset.card_le_card listed
    simp only [Frontier.work, Multiset.card_add, Multiset.card_cons, Multiset.coe_card] at few ⊢
    omega

theorem wellFounded_closes (automaton : Automaton) :
    WellFounded fun after before => Closes automaton before after :=
  Subrelation.wf (fun step => work_closes step) (measure (Frontier.work automaton)).wf

/-- While anything is pending there is a step to take. -/
theorem exists_closes {frontier : Frontier} (waits : frontier.pending ≠ 0) :
    ∃ next, Closes automaton frontier next := by
  obtain ⟨pending, closed⟩ := frontier
  obtain ⟨state, member⟩ := Multiset.exists_mem_of_ne_zero waits
  obtain ⟨rest, same⟩ := Multiset.exists_cons_of_mem member
  cases same
  by_cases known : state ∈ closed
  · exact ⟨_, Closes.drop known⟩
  · exact ⟨_, Closes.close known le_rfl fun _ => Or.inr⟩

theorem run_closePending (pending closed : List Nat) :
    Relation.ReflTransGen (Closes automaton) ⟨pending, closed⟩
      ⟨0, automaton.closePending pending closed⟩ := by
  fun_induction automaton.closePending pending closed with
  | case1 closed => exact Relation.ReflTransGen.refl
  | case2 state pending closed known ih =>
    rw [← Multiset.cons_coe]
    exact ih.head (Closes.drop known)
  | case3 state pending closed fresh ih =>
    rw [← Multiset.coe_add] at ih
    rw [← Multiset.cons_coe]
    exact ih.head (Closes.close fresh le_rfl fun _ => Or.inr)

theorem spans_silentClosure (automaton : Automaton) (states : List Nat) :
    Spans automaton states ⟨0, automaton.silentClosure states⟩ :=
  spans_run (run_closePending states []) (spans_start automaton states)

theorem pairwise_silentClosure (automaton : Automaton) (states : List Nat) :
    (automaton.silentClosure states).Pairwise (· < ·) :=
  (spans_silentClosure automaton states).ascending

theorem eq_silentClosure {closed : List Nat} (ascending : closed.Pairwise (· < ·))
    (exactly : ∀ state, state ∈ closed ↔
      ∃ source ∈ states, automaton.SilentlyReaches source state) :
    closed = automaton.silentClosure states := by
  apply ascending.eq_of_mem_iff (pairwise_silentClosure automaton states)
  intro state
  rw [exactly, mem_closed_of_spans (spans_silentClosure automaton states)]

/-- The closure is the ascending list of what silent edges reach, so it depends only on which states
are given and which silent edges there are. It need not take the pending states in its own order:
no order goes on forever or gets stuck before it ends with the same list. -/
theorem silentClosure_exact (automaton : Automaton) (states : List Nat) :
    (automaton.silentClosure states).Pairwise (· < ·) ∧
    (∀ state, state ∈ automaton.silentClosure states ↔
      ∃ source ∈ states, automaton.SilentlyReaches source state) ∧
    (∀ (other : Automaton) (again : List Nat),
      (∀ source target, other.HasEdge source none target ↔
        automaton.HasEdge source none target) →
      (∀ state, state ∈ again ↔ state ∈ states) →
        other.silentClosure again = automaton.silentClosure states) ∧
    (WellFounded fun after before => Closes automaton before after) ∧
    ∀ frontier, Relation.ReflTransGen (Closes automaton) ⟨states, []⟩ frontier →
      (∃ next, Closes automaton frontier next) ∨
        frontier = ⟨0, automaton.silentClosure states⟩ := by
  have member := mem_closed_of_spans (spans_silentClosure automaton states)
  refine ⟨pairwise_silentClosure automaton states, member, ?_, wellFounded_closes automaton, ?_⟩
  · intro other again edges given
    apply eq_silentClosure (pairwise_silentClosure other again)
    intro state
    have reaches : other.SilentlyReaches = automaton.SilentlyReaches :=
      congrArg Relation.ReflTransGen (funext₂ fun source target => propext (edges source target))
    rw [mem_closed_of_spans (spans_silentClosure other again), reaches]
    simp only [given]
  · rintro ⟨pending, closed⟩ run
    by_cases waits : pending = 0
    · subst waits
      have spans := spans_run run (spans_start automaton states)
      have same : closed = automaton.silentClosure states :=
        eq_silentClosure spans.ascending (mem_closed_of_spans spans)
      subst same
      exact Or.inr rfl
    · exact Or.inl (exists_closes waits)

/-- Silent edges in a cycle, from a state to itself, listed twice, and out of the state set. -/
def looped : Automaton where
  states := OrderedSet.ofList [0, 1, 2]
  alphabet := OrderedSet.ofList ['a']
  transitions := OrderedTable.ofEntries
    [(0, [.silent 1, .silent 0, .silent 1]), (1, [.reading 'a' 2, .silent 9, .silent 0])]
  start := 0
  finals := OrderedSet.ofList [2]

def relisted : Automaton :=
  { looped with
    transitions := OrderedTable.ofEntries
      [(1, [.silent 0, .silent 9, .reading 'a' 2]), (0, [.silent 0, .silent 1])] }

/-- One of the steps takes the state in the middle, and only the first target behind it joins. -/
theorem silentClosure_exact_looped :
    looped.silentClosure [7, 0, 7] = [0, 1, 7, 9] ∧
      (∀ source target, relisted.HasEdge source none target ↔
        looped.HasEdge source none target) ∧
      (∀ state, state ∈ [0, 7] ↔ state ∈ [7, 0, 7]) ∧
      relisted.silentClosure [0, 7] = looped.silentClosure [7, 0, 7] ∧
      looped.Closes ⟨↑[7, 0, 7], []⟩ ⟨{1} + {7, 7}, [0]⟩ ∧
      ∃ next, looped.Closes ⟨{1} + {7, 7}, [0]⟩ next := by
  have edges (source target : Nat) :
      relisted.HasEdge source none target ↔ looped.HasEdge source none target := by
    rw [← mem_silentTargets, ← mem_silentTargets]
    match source with
    | 0 =>
      change target ∈ [0, 1] ↔ target ∈ [1, 0, 1]
      simp only [List.mem_cons]
      tauto
    | 1 =>
      change target ∈ [0, 9] ↔ target ∈ [9, 0]
      simp only [List.mem_cons]
      tauto
    | source + 2 => rfl
  have given (state : Nat) : state ∈ [0, 7] ↔ state ∈ [7, 0, 7] := by
    simp only [List.mem_cons]
    tauto
  have step : looped.Closes ⟨↑[7, 0, 7], []⟩ ⟨{1} + {7, 7}, [0]⟩ := by
    have middle : (↑[7, 0, 7] : Multiset Nat) = 0 ::ₘ {7, 7} := by decide
    rw [middle]
    exact Closes.close (by decide) (by decide) (by decide)
  obtain ⟨_, _, congruent, _, ends⟩ := silentClosure_exact looped [7, 0, 7]
  have goesOn := (ends _ (Relation.ReflTransGen.single step)).resolve_right (by simp)
  exact ⟨by decide +kernel, edges, given, congruent relisted [0, 7] edges given, step, goesOn⟩

end Closing

section Activity

variable {automaton : Automaton}

theorem mem_silentClosure {states : List Nat} {state : Nat} :
    state ∈ automaton.silentClosure states ↔
      ∃ source ∈ states, automaton.Path source [] state := by
  rw [mem_closed_of_spans (spans_silentClosure automaton states)]
  simp only [silent_path_iff]

theorem silentlyClosed_silentClosure (automaton : Automaton) (states : List Nat) :
    automaton.SilentlyClosed (automaton.silentClosure states) := by
  intro source member target edge
  obtain ⟨first, given, path⟩ := mem_silentClosure.mp member
  have further := path.append (Path.silent edge (Path.here target))
  exact mem_silentClosure.mpr ⟨first, given, further⟩

theorem mem_advance {states : List Nat} {symbol : Char} {target : Nat} :
    target ∈ automaton.advance states symbol ↔
      ∃ source ∈ states, ∃ middle, automaton.HasEdge source (some symbol) middle ∧
        automaton.Path middle [] target := by
  unfold advance
  rw [mem_silentClosure]
  constructor
  · rintro ⟨middle, moved, path⟩
    obtain ⟨source, member, edge⟩ := mem_move.mp moved
    exact ⟨source, member, middle, edge, path⟩
  · rintro ⟨source, member, middle, edge, path⟩
    exact ⟨middle, mem_move.mpr ⟨source, member, edge⟩, path⟩

theorem advance_nil (automaton : Automaton) (symbol : Char) : automaton.advance [] symbol = [] := by
  apply List.eq_nil_iff_forall_not_mem.mpr
  intro target member
  obtain ⟨_, absent, _⟩ := mem_advance.mp member
  cases absent

theorem foldl_advance_nil (automaton : Automaton) (word : List Char) :
    word.foldl automaton.advance [] = [] := by
  induction word with
  | nil => rfl
  | cons symbol rest ih => rw [List.foldl_cons, advance_nil, ih]

theorem silentlyClosed_advance (automaton : Automaton) (states : List Nat) (symbol : Char) :
    automaton.SilentlyClosed (automaton.advance states symbol) :=
  silentlyClosed_silentClosure automaton _

/-- A path that reads a symbol leaves a silently closed set by an edge that reads it. -/
theorem advance_of_path {states : List Nat} (closed : automaton.SilentlyClosed states)
    {source target : Nat} {symbol : Char} {word rest : List Char}
    (path : automaton.Path source word target) (reads : word = symbol :: rest)
    (member : source ∈ states) :
    ∃ middle ∈ automaton.advance states symbol, automaton.Path middle rest target := by
  induction path with
  | here => cases reads
  | silent edge _ ih => exact ih reads (closed _ member _ edge)
  | reading edge path _ =>
    cases reads
    exact ⟨_, mem_advance.mpr ⟨_, member, _, edge, Path.here _⟩, path⟩

theorem mem_foldl_advance {states : List Nat} (closed : automaton.SilentlyClosed states)
    {word : List Char} {target : Nat} :
    target ∈ word.foldl automaton.advance states ↔
      ∃ source ∈ states, automaton.Path source word target := by
  induction word generalizing states with
  | nil =>
    constructor
    · intro member
      exact ⟨target, member, Path.here target⟩
    · rintro ⟨source, member, path⟩
      exact closed.mem_of_reaches (silent_path_iff.mp path) member
  | cons symbol rest ih =>
    rw [List.foldl_cons, ih (silentlyClosed_advance automaton states symbol)]
    constructor
    · rintro ⟨middle, moved, path⟩
      obtain ⟨source, member, first, edge, silent⟩ := mem_advance.mp moved
      exact ⟨source, member, Path.reading edge (Path.append silent path)⟩
    · rintro ⟨source, member, path⟩
      exact advance_of_path closed path rfl member

theorem mem_active {word : List Char} {state : Nat} :
    state ∈ automaton.active word ↔ automaton.Path automaton.start word state := by
  unfold active
  rw [mem_foldl_advance (silentlyClosed_silentClosure automaton _)]
  constructor
  · rintro ⟨first, member, path⟩
    obtain ⟨source, single, silent⟩ := mem_silentClosure.mp member
    cases List.mem_singleton.mp single
    exact Path.append silent path
  · intro path
    have started : automaton.start ∈ automaton.silentClosure [automaton.start] :=
      mem_silentClosure.mpr ⟨_, List.mem_singleton_self _, Path.here _⟩
    exact ⟨automaton.start, started, path⟩

theorem accepts_iff {word : List Char} :
    automaton.accepts word = true ↔
      ∃ final ∈ automaton.finals, automaton.Path automaton.start word final := by
  simp only [accepts, List.any_eq_true, mem_active, isFinal, decide_eq_true_eq]
  exact exists_congr fun final => and_comm

end Activity

end Recognizer.Automaton
