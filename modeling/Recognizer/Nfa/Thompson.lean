import Recognizer.Automaton.Basic
import Recognizer.Pattern.Syntax

/-!
Automata of patterns in postorder. Every operand is a fragment with one start and one accept state;
an operator takes its operands from a stack and returns one fragment. States are numbered upwards
from zero, two for each literal, union and star, so two fragments on the stack share no state and
no accept state has an edge. That is why a fragment takes over the states and edges of another by
putting one list behind the other.
-/

namespace Recognizer.Nfa

open Pattern

structure Fragment where
  states : List Nat
  alphabet : OrderedSet Char
  edges : List (Nat × List Transition)
  start : Nat
  accept : Nat

namespace Fragment

def absorb (fragment other : Fragment) : Fragment :=
  { fragment with
    states := fragment.states ++ other.states
    alphabet := fragment.alphabet.append other.alphabet
    edges := fragment.edges ++ other.edges }

def literal (next : Nat) (symbol : Char) : Fragment where
  states := [next, next + 1]
  alphabet := OrderedSet.ofList [symbol]
  edges := [(next, [Transition.reading symbol (next + 1)])]
  start := next
  accept := next + 1

def around (next : Nat) (edges : List (Nat × List Transition)) : Fragment where
  states := [next, next + 1]
  alphabet := OrderedSet.empty
  edges := edges
  start := next
  accept := next + 1

def union (next : Nat) (left right : Fragment) : Fragment :=
  ((around next
    [(next, [Transition.silent left.start, Transition.silent right.start]),
      (left.accept, [Transition.silent (next + 1)]),
      (right.accept, [Transition.silent (next + 1)])]).absorb left).absorb right

/-- Concatenation makes no state: the left accept state leads to the right start state. -/
def concat (left right : Fragment) : Fragment :=
  { left.absorb { right with
      edges := (left.accept, [Transition.silent right.start]) :: right.edges } with
    accept := right.accept }

def star (next : Nat) (inner : Fragment) : Fragment :=
  (around next
    [(next, [Transition.silent inner.start, Transition.silent (next + 1)]),
      (inner.accept, [Transition.silent inner.start, Transition.silent (next + 1)])]).absorb inner

def toAutomaton (fragment : Fragment) : Automaton where
  states := OrderedSet.ofList fragment.states
  alphabet := fragment.alphabet
  transitions := OrderedTable.ofEntries fragment.edges
  start := fragment.start
  finals := OrderedSet.ofList [fragment.accept]

end Fragment

structure Builder where
  next : Nat
  stack : List Fragment

namespace Builder

def fresh : Builder := ⟨0, []⟩

/-- An operator that finds too few operands is reported at its own position. -/
def step (builder : Builder) (position : Nat) (token : Token) : Except Malformed Builder :=
  match token, builder.stack with
  | .literal symbol, stack =>
    .ok ⟨builder.next + 2, Fragment.literal builder.next symbol :: stack⟩
  | .union, right :: left :: stack =>
    .ok ⟨builder.next + 2, Fragment.union builder.next left right :: stack⟩
  | .concat, right :: left :: stack => .ok ⟨builder.next, Fragment.concat left right :: stack⟩
  | .star, inner :: stack => .ok ⟨builder.next + 2, Fragment.star builder.next inner :: stack⟩
  | .opening, _ | .closing, _ => .error (.unbalancedParenthesis position)
  | operator, _ => .error (.missingOperand operator.toChar position)

def runFrom (builder : Builder) (position : Nat) : List Token → Except Malformed Builder
  | [] => .ok builder
  | token :: rest =>
    match builder.step position token with
    | .error malformed => .error malformed
    | .ok after => after.runFrom (position + 1) rest

def finish (builder : Builder) : Except Malformed Automaton :=
  match builder.stack with
  | [] => .error .emptyExpression
  | [fragment] => .ok fragment.toAutomaton
  | several => .error (.danglingOperands several.length)

end Builder

def ofTokens (tokens : List Token) : Except Malformed Automaton :=
  match Builder.fresh.runFrom 0 tokens with
  | .error malformed => .error malformed
  | .ok builder => builder.finish

def ofPostorder (text : List Char) : Except Malformed Automaton :=
  match Token.read text with
  | .error malformed => .error malformed
  | .ok tokens => ofTokens tokens

end Recognizer.Nfa
