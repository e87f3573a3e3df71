import Recognizer.Collection
import Recognizer.Text
import Recognizer.Automaton.Basic
import Recognizer.Automaton.Report
import Recognizer.Pattern.Postorder
import Recognizer.Pattern.Syntax
import Recognizer.Compile
import Recognizer.Yaml.Number
import Recognizer.Yaml.Scalar
import Recognizer.Yaml.Token
import Recognizer.Yaml.Scan
import Recognizer.Yaml.Node
import Recognizer.Yaml.Value
import Recognizer.CommandLine.Arguments
import Recognizer.CommandLine.Sandbox
import Recognizer.Main
import Recognizer.Proofs.Automaton.Validity
import Recognizer.Proofs.Dfa.Exploration
import Recognizer.Proofs.Dfa.Provenance
import Recognizer.Proofs.Nfa.Fragments
import Recognizer.Proofs.Nfa.Stack
import Recognizer.Proofs.Nfa.Recognition
import Recognizer.Proofs.Nfa.Language
import Recognizer.Proofs.Compile
import Recognizer.Proofs.Pattern.Arrangement
import Recognizer.Proofs.Pattern.Derivation
import Recognizer.Proofs.Pattern.Grouping
import Recognizer.Proofs.Pattern.Operands
import Recognizer.Proofs.Nfa.Shortage
import Recognizer.Proofs.Malformed
import Recognizer.Proofs.Pattern.Shape
import Recognizer.Proofs.Dfa.Exactness
import Recognizer.Proofs.Stages
import Recognizer.Proofs.Dfa.Numbering
import Recognizer.Proofs.Nfa.Landings
import Recognizer.Proofs.Dfa.Kernels
import Recognizer.Proofs.Literals
import Recognizer.Proofs.Yaml.Entry
import Recognizer.Proofs.Config
import Recognizer.Proofs.Text
import Recognizer.Proofs.Config.Loading
import Recognizer.Proofs.Pattern.Tally
import Recognizer.Proofs.Nfa.Structure
import Recognizer.Proofs.Nfa.Outcome
import Recognizer.Proofs.Pattern.Partners
import Recognizer.Proofs.Pattern.Explicit
import Recognizer.Proofs.Pattern.Conservation
import Recognizer.Proofs.Collection
import Recognizer.Proofs.Nfa.Activity
import Recognizer.Proofs.Automaton.Determinism
import Recognizer.Proofs.Automaton.Examination
import Recognizer.Proofs.Dfa.Strictness
import Recognizer.Proofs.Automaton.Sameness
import Recognizer.Proofs.Automaton.Listing
import Recognizer.Proofs.CommandLine.Verdicts
import Recognizer.Proofs.CommandLine.Input
import Recognizer.Proofs.Regrouping
import Recognizer.Proofs.Nfa.Tiling
import Recognizer.Proofs.Dfa.Worklist
