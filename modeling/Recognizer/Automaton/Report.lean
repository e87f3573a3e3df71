import Recognizer.Automaton.Basic
import Recognizer.Text

/-!
What is reported of an automaton. Assembled from parts, it may lack some of them: the conditions are
listed in the order in which they are examined, and the first one that fails is reported.
Determinism is examined apart: it asks for no silent edge and for at most one edge on each symbol
from each state. The listing has one line for each part and one for each edge, by source in the
order of the state set; a symbol is written as it is and a silent edge as the word `lambda`. The
record form names states as terms and shows every source that has an edge.
-/

namespace Recognizer

inductive Violation where
  | startStateMissing (state : Nat)
  | finalStateMissing (state : Nat)
  | sourceMissing (state : Nat)
  | targetMissing (source target : Nat)
  | symbolMissing (source : Nat) (symbol : Char)
  | silentTransition (source : Nat)
  | nondeterministic (source : Nat) (symbol : Char)
  deriving DecidableEq

namespace Violation

def message : Violation → String
  | startStateMissing state => s!"start state {state} is not in the state set"
  | finalStateMissing state => s!"final state {state} is not in the state set"
  | sourceMissing state => s!"transition source {state} is not in the state set"
  | targetMissing source target =>
    s!"transition {source} -> {target} targets a state outside the state set"
  | symbolMissing source symbol =>
    s!"transition from {source} uses {Text.quotedSymbol symbol}, which is not in the alphabet"
  | silentTransition source => s!"state {source} has an epsilon transition"
  | nondeterministic source symbol =>
    s!"state {source} has more than one transition on {Text.quotedSymbol symbol}"

end Violation

namespace Automaton

/-- A requirement on an automaton, with the violation to report where it does not hold. -/
structure Condition where
  holds : Bool
  otherwise : Violation

def transitionConditions (automaton : Automaton) (source : Nat) (transition : Transition) :
    List Condition :=
  ⟨transition.target ∈ automaton.states, .targetMissing source transition.target⟩ ::
    match transition.symbol with
    | some symbol => [⟨symbol ∈ automaton.alphabet, .symbolMissing source symbol⟩]
    | none => []

def entryConditions (automaton : Automaton) (entry : Nat × List Transition) : List Condition :=
  ⟨entry.1 ∈ automaton.states, .sourceMissing entry.1⟩ ::
    entry.2.flatMap (automaton.transitionConditions entry.1)

/-- The start state, then the final states, then each source with its edges, the target of an edge
before its symbol. -/
def conditions (automaton : Automaton) : List Condition :=
  ⟨automaton.start ∈ automaton.states, .startStateMissing automaton.start⟩ ::
    automaton.finals.items.map (fun final =>
      ⟨final ∈ automaton.states, .finalStateMissing final⟩) ++
    automaton.transitions.entries.flatMap automaton.entryConditions

def violation? (automaton : Automaton) : Option Violation :=
  (automaton.conditions.find? (!·.holds)).map Condition.otherwise

def validate (automaton : Automaton) : Except Violation Unit :=
  match automaton.violation? with
  | some violation => .error violation
  | none => .ok ()

def isValid (automaton : Automaton) : Bool := automaton.violation?.isNone

def conflict? (source : Nat) (earlier : List Char) : List Transition → Option Violation
  | [] => none
  | transition :: rest =>
    match transition.symbol with
    | none => some (.silentTransition source)
    | some symbol =>
      if symbol ∈ earlier then some (.nondeterministic source symbol)
      else conflict? source (symbol :: earlier) rest

def checkDeterminism (automaton : Automaton) : Except Violation Unit :=
  match automaton.transitions.entries.findSome? (fun entry => conflict? entry.1 [] entry.2) with
  | some violation => .error violation
  | none => .ok ()

theorem violation?_eq_none_iff {automaton : Automaton} :
    automaton.violation? = none ↔ ∀ condition ∈ automaton.conditions, condition.holds = true := by
  simp [violation?]

end Automaton

def silentName : String := "lambda"

namespace Transition

def label (transition : Transition) : String :=
  match transition.symbol with
  | some symbol => String.singleton symbol
  | none => silentName

end Transition

namespace Text

def listed (items : List String) : String := String.intercalate "," items

def stateTerm (state : Nat) : String := s!"State({state})"

def setTerm (items : List String) : String :=
  "\x7b" ++ String.intercalate ", " items ++ "\x7d"

end Text

namespace Transition

def term (transition : Transition) : String :=
  let read := match transition.symbol with
    | some symbol => Text.quotedSymbol symbol
    | none => "epsilon"
  s!"-> {Text.stateTerm transition.target}, symbol: {read}"

end Transition

namespace Violation

def term : Violation → String
  | startStateMissing state => s!"StartStateMissing({Text.stateTerm state})"
  | finalStateMissing state => s!"FinalStateMissing({Text.stateTerm state})"
  | sourceMissing state => s!"TransitionSourceMissing({Text.stateTerm state})"
  | targetMissing source target =>
    s!"TransitionTargetMissing \x7b from: {Text.stateTerm source}, to: {Text.stateTerm target} \x7d"
  | symbolMissing source symbol =>
    s!"SymbolOutsideAlphabet \x7b from: {Text.stateTerm source}, " ++
      s!"symbol: {Text.quotedSymbol symbol} \x7d"
  | silentTransition source => s!"EpsilonTransition \x7b from: {Text.stateTerm source} \x7d"
  | nondeterministic source symbol =>
    s!"Nondeterministic \x7b from: {Text.stateTerm source}, symbol: {Text.quotedSymbol symbol} \x7d"

end Violation

namespace Automaton

def edgeLine (source : Nat) (transition : Transition) : String :=
  s!"p({source}, {transition.label}) -> {transition.target}"

def edgeLines (automaton : Automaton) : List String :=
  automaton.states.items.flatMap fun source =>
    (automaton.transitionsFrom source).map (edgeLine source)

def describe (automaton : Automaton) : List String :=
  ["States: " ++ Text.listed (automaton.states.items.map toString),
    "Alphabet: " ++ Text.listed (automaton.alphabet.items.map String.singleton),
    s!"StartingState: {automaton.start}",
    "FinalStates: " ++ Text.listed (automaton.finals.items.map toString),
    "Transitions:"] ++ automaton.edgeLines

def display (automaton : Automaton) : String := String.intercalate "\n" automaton.describe

def sourceTerm (entry : Nat × List Transition) : String :=
  if entry.2.isEmpty then ""
  else s!"\t{Text.stateTerm entry.1}:\n" ++
    String.join (entry.2.map fun transition => s!"\t\t{transition.term}\n")

def term (automaton : Automaton) : String :=
  s!"( start: {Text.stateTerm automaton.start}, accept: " ++
    Text.setTerm (automaton.finals.items.map Text.stateTerm) ++ ", states: " ++
    Text.setTerm (automaton.states.items.map Text.stateTerm) ++ ", alphabet: " ++
    Text.setTerm (automaton.alphabet.items.map Text.quotedSymbol) ++ ", transitions: \x7b\n" ++
    String.join (automaton.transitions.entries.map sourceTerm) ++ "\x7d )"

end Automaton

end Recognizer
