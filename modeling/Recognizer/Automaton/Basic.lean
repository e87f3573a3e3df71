import Recognizer.Collection

/-!
Finite automata with silent edges, whose states are numbers. An automaton is assembled from parts
that need not fit together: its start state, its final states and the ends of its edges may lie
outside its state set. Paths give the words between two states; a walk is the path that takes the
first matching edge at every symbol and no silent edge. Automata are compared without regard to the
order in which their parts were added, except inside one state's list of edges; a source with an
empty list differs from a source without an entry.
-/

namespace Recognizer

/-- An edge without a symbol is silent: it is taken without reading. -/
structure Transition where
  symbol : Option Char
  target : Nat
  deriving DecidableEq

namespace Transition

def reading (symbol : Char) (target : Nat) : Transition := ⟨some symbol, target⟩

def silent (target : Nat) : Transition := ⟨none, target⟩

def isSilent (transition : Transition) : Bool := transition.symbol.isNone

end Transition

structure Automaton where
  states : OrderedSet Nat
  alphabet : OrderedSet Char
  transitions : OrderedTable Nat Transition
  start : Nat
  finals : OrderedSet Nat
  deriving DecidableEq

namespace Automaton

def startingAt (start : Nat) : Automaton where
  states := OrderedSet.ofList [start]
  alphabet := OrderedSet.empty
  transitions := OrderedTable.empty
  start := start
  finals := OrderedSet.empty

def addState (automaton : Automaton) (state : Nat) : Automaton :=
  { automaton with states := automaton.states.insert state }

def addSymbol (automaton : Automaton) (symbol : Char) : Automaton :=
  { automaton with alphabet := automaton.alphabet.insert symbol }

def addFinal (automaton : Automaton) (state : Nat) : Automaton :=
  { automaton with finals := automaton.finals.insert state }

def addTransition (automaton : Automaton) (source : Nat) (transition : Transition) : Automaton :=
  { automaton with transitions := automaton.transitions.push source transition }

def addSilent (automaton : Automaton) (source target : Nat) : Automaton :=
  automaton.addTransition source (.silent target)

def transitionsFrom (automaton : Automaton) (source : Nat) : List Transition :=
  automaton.transitions.valuesAt source

def isFinal (automaton : Automaton) (state : Nat) : Bool := state ∈ automaton.finals

/-- The first edge that reads the symbol decides. -/
def next? (automaton : Automaton) (source : Nat) (symbol : Char) : Option Nat :=
  ((automaton.transitionsFrom source).find? (·.symbol = some symbol)).map Transition.target

def walk (automaton : Automaton) : Nat → List Char → Option Nat
  | source, [] => some source
  | source, symbol :: rest =>
    match automaton.next? source symbol with
    | some target => walk automaton target rest
    | none => none

def check (automaton : Automaton) (word : List Char) : Bool :=
  match automaton.walk automaton.start word with
  | some state => automaton.isFinal state
  | none => false

def sameParts (left right : Automaton) : Bool :=
  left.states.sameMembers right.states && left.alphabet.sameMembers right.alphabet &&
    left.transitions.sameEntries right.transitions && left.start = right.start &&
    left.finals.sameMembers right.finals

def HasEdge (automaton : Automaton) (source : Nat) (symbol : Option Char) (target : Nat) :
    Prop :=
  ⟨symbol, target⟩ ∈ automaton.transitionsFrom source

inductive Path (automaton : Automaton) : Nat → List Char → Nat → Prop
  | here (state : Nat) : Path automaton state [] state
  | silent {source middle target : Nat} {word : List Char} :
      automaton.HasEdge source none middle → Path automaton middle word target →
        Path automaton source word target
  | reading {source middle target : Nat} {symbol : Char} {word : List Char} :
      automaton.HasEdge source (some symbol) middle → Path automaton middle word target →
        Path automaton source (symbol :: word) target

namespace Path

variable {automaton : Automaton}

theorem append {source middle target : Nat} {left right : List Char}
    (first : Path automaton source left middle) (second : Path automaton middle right target) :
    Path automaton source (left ++ right) target := by
  induction first with
  | here => exact second
  | silent edge _ ih => exact Path.silent edge (ih second)
  | reading edge _ ih => exact Path.reading edge (ih second)

end Path

theorem hasEdge_of_next? {automaton : Automaton} {source target : Nat} {symbol : Char}
    (found : automaton.next? source symbol = some target) :
    automaton.HasEdge source (some symbol) target := by
  obtain ⟨transition, hit, ends⟩ := Option.map_eq_some_iff.mp found
  have member := List.mem_of_find?_eq_some hit
  have reads := List.find?_some hit
  cases transition
  simp only [decide_eq_true_eq] at reads ends
  subst reads ends
  exact member

theorem path_of_walk {automaton : Automaton} {source target : Nat} {word : List Char}
    (walked : automaton.walk source word = some target) :
    automaton.Path source word target := by
  induction word generalizing source with
  | nil =>
    cases walked
    exact Path.here _
  | cons symbol rest ih =>
    unfold walk at walked
    cases found : automaton.next? source symbol with
    | none => simp [found] at walked
    | some middle =>
      rw [found] at walked
      exact Path.reading (hasEdge_of_next? found) (ih walked)

theorem walk_append (automaton : Automaton) (source : Nat) (front back : List Char) :
    automaton.walk source (front ++ back) =
      (automaton.walk source front).bind fun middle => automaton.walk middle back := by
  induction front generalizing source with
  | nil => rfl
  | cons symbol rest ih =>
    simp only [List.cons_append, walk]
    cases automaton.next? source symbol with
    | none => rfl
    | some middle => exact ih middle

theorem check_iff {automaton : Automaton} {word : List Char} :
    automaton.check word = true ↔
      ∃ final ∈ automaton.finals, automaton.walk automaton.start word = some final := by
  unfold check
  cases automaton.walk automaton.start word with
  | none => simp
  | some state => simp [isFinal, eq_comm]

end Automaton

end Recognizer
