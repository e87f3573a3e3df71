import Recognizer.Compile
import Recognizer.Text

/-!
Pattern configurations: a pattern, words to test and a file to write to. Documents and their numbers
are a library's; what it reads is a value of one of seven kinds. Three keys count, and of several
faults the pattern's is reported before that of the words, and the output's last. A pattern loses
the white space around it; words and output are taken as they are.
-/

namespace Recognizer

namespace Yaml

inductive Value (Number : Type) where
  | null
  | bool (value : Bool)
  | number (value : Number)
  | string (value : String)
  | sequence (items : List (Value Number))
  | mapping (entries : List (Value Number × Value Number))
  | tagged (tag : List Char) (value : Value Number)

/-- What is used of a library for documents: how a number is written, and the entries of a document
that is a mapping. -/
structure Library (Number : Type) where
  text : Number → List Char
  entries? : List Char → Option (List (String × Value Number))

end Yaml

structure Config where
  regex : String
  words : List String
  output : Option String
  deriving DecidableEq

namespace Config

open Yaml (Value Library)

variable {Number : Type}

def ofRegex (regex : String) : Config := ⟨regex, [], none⟩

def trimmed (text : String) : String := String.ofList (Text.trim text.toList)

def regexOf (library : Library Number) (value : Value Number) : Except Fault String :=
  match value with
  | .string text => .ok (trimmed text)
  | .number number => .ok (String.ofList (library.text number))
  | _ => .error (.misfit .regex)

def wordOf (value : Value Number) : Except Fault String :=
  match value with
  | .string text => .ok text
  | _ => .error (.misfit .wordElement)

def wordsOf (value : Option (Value Number)) : Except Fault (List String) :=
  match value with
  | none | some .null => .ok []
  | some (.sequence items) => items.mapM wordOf
  | some _ => .error (.misfit .words)

def outputOf (value : Option (Value Number)) : Except Fault (Option String) :=
  match value with
  | none | some .null => .ok none
  | some (.string path) => .ok (some path)
  | some _ => .error (.misfit .output)

def ofEntries (library : Library Number) (entries : List (String × Value Number)) :
    Except Fault Config := do
  match entries.lookup "regex" with
  | none => throw (.missingKey "regex")
  | some value =>
    let regex ← regexOf library value
    let words ← wordsOf (entries.lookup "words")
    let output ← outputOf (entries.lookup "output")
    return ⟨regex, words, output⟩

def ofDocument (library : Library Number) (text : List Char) : Except Fault Config :=
  match library.entries? text with
  | none => .error .malformedDocument
  | some entries => ofEntries library entries

end Config

abbrev Content := Except Unreadable ByteArray

namespace Content

def text (content : Content) : Except Fault String :=
  match content with
  | .error cause => .error (.unreadable cause)
  | .ok bytes =>
    match String.fromUTF8? bytes with
    | some text => .ok text
    | none => .error (.unreadable .invalidText)

def regex (content : Content) : Except Fault String := return Config.trimmed (← content.text)

def config {Number : Type} (library : Yaml.Library Number) (content : Content) :
    Except Fault Config := do
  Config.ofDocument library (← content.text).toList

end Content

end Recognizer
