import Recognizer.Automaton.Report
import Recognizer.CommandLine.Arguments
import Recognizer.Config
import Recognizer.Text
import Recognizer.Yaml.Value

/-!
A run of the program. The host gives it files and input and takes what it prints; the same run is
made by any host, whatever effects it has. What was printed before a fault stays printed. Words are
judged one by one, each on a line of its own; a strict check names the first symbol of a word that
is outside the alphabet, and fails if there is such a word, but goes on to the last.
-/

namespace Recognizer.CommandLine

def programName : String := "regex-dfa"

def version : String := "0.0.1"

def helpText : String :=
  String.join
    ["Compiles a regular expression into a DFA and tests words against it\n\n",
      "Usage: regex-dfa [OPTIONS] <--regex <REGEX>|--file <REGEX_FILE>|--config <CONFIG_FILE>> ",
      "<COMMAND>\n\nCommands:\n",
      "  postfix   Print the postfix form of the regex\n",
      "  describe  Print the DFA and optionally write it to a file\n",
      "  validate  Check the structural invariants of the DFA\n",
      "  check     Test words against the DFA; reads stdin when no words are given\n"]

inductive Exit where
  | success
  | failure
  | usage
  deriving DecidableEq

namespace Exit

def code : Exit → UInt32
  | success => 0
  | failure => 1
  | usage => 2

end Exit

def verdict (dfa : Dfa) (strict : Bool) (word : List Char) : Except Fault Bool :=
  if strict then dfa.checkStrictly word else .ok (dfa.check word)

def verdictText : Except Fault Bool → String
  | .ok true => "accepted"
  | .ok false => "rejected"
  | .error fault => fault.message

def verdictLine (dfa : Dfa) (strict : Bool) (word : List Char) : String :=
  s!"{Text.quotedWord word}: {verdictText (verdict dfa strict word)}"

def isFault : Except Fault Bool → Bool
  | .ok _ => false
  | .error _ => true

def verdictExit (dfa : Dfa) (strict : Bool) (words : List (List Char)) : Exit :=
  if words.any fun word => isFault (verdict dfa strict word) then .failure else .success

def inputWords (input : ByteArray) : Except Fault (List (List Char)) :=
  match String.fromUTF8? input with
  | some text => .ok (Text.wordLines text.toList)
  | none => .error (.unreadable .invalidText)

structure Host (m : Type → Type) where
  read : String → m Content
  write : String → String → m (Except Unreadable Unit)
  input : m ByteArray
  print : String → m Unit
  complain : String → m Unit

variable {m : Type → Type} [Monad m]

namespace Host

def printLine (host : Host m) (line : String) : m Unit := host.print (line ++ "\n")

def printLines (host : Host m) (lines : List String) : m Unit :=
  host.print (String.join (lines.map (· ++ "\n")))

def printIf (host : Host m) (condition : Bool) (line : String) : m Unit :=
  if condition then host.printLine line else pure ()

end Host

abbrev Run (m : Type → Type) := ExceptT Fault m

def orFail {α : Type} (result : Except Fault α) : Run m α := ExceptT.mk (pure result)

def loadConfig (host : Host m) (source : Source) : Run m Config := do
  match source with
  | .regex text => return Config.ofRegex (Config.trimmed text)
  | .file path =>
    let content ← ExceptT.lift (host.read path)
    return Config.ofRegex (← orFail content.regex)
  | .config path =>
    let content ← ExceptT.lift (host.read path)
    orFail (content.config Yaml.library)

def runDescribe (host : Host m) (dfa : Dfa) (output : Option String) : Run m Exit := do
  let lines := dfa.automaton.describe
  host.printLines lines
  match output with
  | none => return .success
  | some path =>
    match ← ExceptT.lift (host.write path (String.join (lines.map (· ++ "\n")))) with
    | .error cause => orFail (.error (.unreadable cause))
    | .ok () =>
      host.printLine s!"DFA written to {path}"
      return .success

def runValidate (host : Host m) (dfa : Dfa) : Run m Exit := do
  match dfa.automaton.validated with
  | .ok () =>
    host.printLine "valid"
    return .success
  | .error fault =>
    host.printLine fault.message
    return .failure

/-- Words come from the arguments, or else the configuration, or else the input. -/
def wordsToCheck (host : Host m) (config : Config) (given : List String) :
    Run m (List (List Char)) := do
  if given ≠ [] then return given.map String.toList
  else if config.words ≠ [] then return config.words.map String.toList
  else orFail (inputWords (← ExceptT.lift host.input))

def runCheck (host : Host m) (dfa : Dfa) (config : Config) (given : List String)
    (strict : Bool) : Run m Exit := do
  let words ← wordsToCheck host config given
  host.printLines (words.map (verdictLine dfa strict))
  return verdictExit dfa strict words

def runCommand (host : Host m) (invocation : Invocation) : Run m Exit := do
  let config ← loadConfig host invocation.source
  let tokens ← orFail ((Pattern.postorder config.regex.toList).mapError .malformed)
  let postorder := String.ofList (Pattern.Token.text tokens)
  match invocation.command with
  | .postorder =>
    host.printLine postorder
    return .success
  | command =>
    host.printIf invocation.verbose s!"Postfix: {postorder}"
    let nfa ← orFail ((Nfa.ofTokens tokens).mapError .malformed)
    host.printIf invocation.verbose ("NFA" ++ nfa.term)
    let dfa := Dfa.determinize nfa
    host.printIf invocation.verbose ("DFA" ++ dfa.automaton.term)
    match command with
    | .postorder => return .success
    | .describe output => runDescribe host dfa (output.or config.output)
    | .validate => runValidate host dfa
    | .check words strict => runCheck host dfa config words strict

def run (host : Host m) (arguments : List String) : m Exit := do
  match readArguments arguments with
  | .error .version =>
    host.printLine s!"{programName} {version}"
    return .success
  | .error .help =>
    host.print helpText
    return .success
  | .error (.fault cause) =>
    host.complain s!"error: {cause.message}\n"
    return .usage
  | .ok invocation =>
    match ← (runCommand host invocation).run with
    | .ok exit => return exit
    | .error fault =>
      host.complain s!"error: {fault.message}\n"
      return .failure

end Recognizer.CommandLine
