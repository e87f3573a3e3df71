import Recognizer.Automaton.Report
import Recognizer.Dfa.Subset
import Recognizer.Nfa.Thompson
import Recognizer.Pattern.Postorder

/-!
From a pattern to its deterministic automaton: postorder, automaton with silent edges, sets of
states. Both automata are examined on the way. Everything that can go wrong between a pattern and
its verdicts is a fault, by cause, with a message.
-/

namespace Recognizer

inductive Unreadable where
  | notFound
  | isDirectory
  | invalidText
  | other (reason : String)
  deriving DecidableEq

namespace Unreadable

def message : Unreadable → String
  | notFound => "No such file or directory (os error 2)"
  | isDirectory => "Is a directory (os error 21)"
  | invalidText => "stream did not contain valid UTF-8"
  | other reason => reason

end Unreadable

inductive Misfit where
  | regex
  | words
  | wordElement
  | output
  deriving DecidableEq

namespace Misfit

def message : Misfit → String
  | regex => "`regex` must be a string"
  | words => "`words` must be a sequence"
  | wordElement => "`words` must only contain strings"
  | output => "`output` must be a string"

end Misfit

inductive Fault where
  | malformed (cause : Pattern.Malformed)
  | invalidAutomaton (violation : Violation)
  | unrecognizedSymbol (symbol : Char) (position : Nat)
  | unreadable (cause : Unreadable)
  | malformedDocument
  | missingKey (key : String)
  | misfit (cause : Misfit)
  deriving DecidableEq

namespace Fault

def message : Fault → String
  | malformed cause => cause.message
  | invalidAutomaton violation => s!"invalid automaton: {violation.message}"
  | unrecognizedSymbol symbol position =>
    s!"symbol {Text.quotedSymbol symbol} at position {position} is not in the alphabet"
  | unreadable cause => s!"I/O error: {cause.message}"
  | malformedDocument => "YAML error: the document cannot be read"
  | missingKey key => s!"missing config key `{key}`"
  | misfit cause => s!"invalid config: {cause.message}"

/-- The pattern's own text is at fault, not what was made of it. -/
def isMalformedPattern : Fault → Bool
  | malformed _ => true
  | _ => false

end Fault

namespace Automaton

def validated (automaton : Automaton) : Except Fault Unit :=
  automaton.validate.mapError Fault.invalidAutomaton

def deterministic (automaton : Automaton) : Except Fault Unit :=
  automaton.checkDeterminism.mapError Fault.invalidAutomaton

end Automaton

namespace Nfa

def ofPattern (pattern : List Char) : Except Pattern.Malformed Automaton := do
  ofTokens (← Pattern.postorder pattern)

end Nfa

namespace Dfa

/-- As `check`, but a symbol outside the alphabet is a fault wherever it stands in the word. -/
def checkStrictly (dfa : Dfa) (word : List Char) : Except Fault Bool :=
  match dfa.foreign? word with
  | some (symbol, position) => .error (.unrecognizedSymbol symbol position)
  | none => .ok (dfa.check word)

end Dfa

def compile (pattern : List Char) : Except Fault Dfa := do
  let nfa ← (Nfa.ofPattern pattern).mapError Fault.malformed
  nfa.validated
  let dfa := Dfa.determinize nfa
  dfa.automaton.validated
  dfa.automaton.deterministic
  return dfa

end Recognizer
