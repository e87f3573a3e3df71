import Recognizer.Nfa.Simulation

/-!
Deterministic automata whose states stand for sets of states of another automaton. Sets are
numbered in the order of their discovery, breadth first and by the alphabet's order; the empty set
gets no number, so a missing edge rejects. Every visit takes one set from the queue, and a set joins
the queue only when it is first discovered; as it consists of the start state and targets of edges,
the number of such sets bounds the visits.
-/

namespace Recognizer

structure Dfa where
  automaton : Automaton
  /-- State `k` stands for the set at place `k`. -/
  subsets : List (List Nat)
  deriving DecidableEq

namespace Dfa

structure Exploration where
  /-- The sets that have a number, in the order of their numbers. -/
  known : List (List Nat)
  pending : List (Nat × List Nat)
  /-- The edges of the states visited so far, the latest first. -/
  rows : List (Nat × List Transition)
  finals : List Nat

def number (work : Exploration) (subset : List Nat) : Nat × Exploration :=
  match work.known.idxOf? subset with
  | some known => (known, work)
  | none =>
    let fresh := work.known.length
    (fresh, { work with
      known := work.known ++ [subset]
      pending := work.pending ++ [(fresh, subset)] })

def follow (source : Automaton) (subset : List Nat) :
    List Char → Exploration → List Transition × Exploration
  | [], work => ([], work)
  | symbol :: rest, work =>
    let target := source.advance subset symbol
    if target = [] then follow source subset rest work
    else
      let (known, numbered) := number work target
      let (row, done) := follow source subset rest numbered
      (Transition.reading symbol known :: row, done)

def visit (source : Automaton) (work : Exploration) : Exploration :=
  match work.pending with
  | [] => work
  | (number, subset) :: rest =>
    let (row, done) := follow source subset source.alphabet.items { work with pending := rest }
    { done with
      rows := (number, row) :: done.rows
      finals := if subset.any source.isFinal then number :: done.finals else done.finals }

def explore (source : Automaton) : Nat → Exploration → Exploration
  | 0, work => work
  | visits + 1, work =>
    match work.pending with
    | [] => work
    | _ :: _ => explore source visits (visit source work)

def initial (source : Automaton) : Exploration :=
  let subset := source.silentClosure [source.start]
  { known := [subset], pending := [(0, subset)], rows := [], finals := [] }

def reachableStates (source : Automaton) : List Nat :=
  Ascending.ofList (source.start ::
    source.transitions.entries.flatMap fun entry => entry.2.map Transition.target)

def explored (source : Automaton) : Exploration :=
  explore source (Nat.pow 2 (reachableStates source).length) (initial source)

/-- A state without edges has no entry. -/
def assemble (source : Automaton) (work : Exploration) : Dfa where
  automaton :=
    { states := ⟨List.range work.known.length, List.nodup_range⟩
      alphabet := source.alphabet
      transitions := OrderedTable.ofEntries (work.rows.reverse.filter fun row => row.2 ≠ [])
      start := 0
      finals := OrderedSet.ofList work.finals.reverse }
  subsets := work.known

def determinize (source : Automaton) : Dfa := assemble source (explored source)

def subset? (dfa : Dfa) (state : Nat) : Option (List Nat) := dfa.subsets[state]?

def check (dfa : Dfa) (word : List Char) : Bool := dfa.automaton.check word

def foreign? (dfa : Dfa) (word : List Char) : Option (Char × Nat) :=
  word.zipIdx.find? fun entry => entry.1 ∉ dfa.automaton.alphabet

end Dfa

end Recognizer
