import Recognizer.Collection
import Recognizer.Config
import Recognizer.Yaml.Node
import Recognizer.Yaml.Number

/-!
The values that a document stands for. A plain scalar without a tag may spell null, a truth value or
a number; any other scalar is a string, unless a standard tag asks for something else. A tag of the
document's own stays with its value, if the bytes of the tag are text. Collections are nested at
most 128 deep, and no mapping inside another one holds a key twice.
-/

namespace Recognizer.Yaml

namespace Value

def bareTag : List Char → List Char
  | '!' :: first :: rest => first :: rest
  | tag => tag

mutual

/-- Equality of keys, where the order of a mapping's entries does not count. -/
def same : Value Number → Value Number → Bool
  | .null, .null => true
  | .bool left, .bool right => left = right
  | .number left, .number right => left.same right
  | .string left, .string right => left = right
  | .sequence left, .sequence right => sameItems left right
  | .mapping left, .mapping right => left.length = right.length && sameEntries left right
  | .tagged leftTag left, .tagged rightTag right =>
    bareTag leftTag = bareTag rightTag && same left right
  | _, _ => false

def sameItems : List (Value Number) → List (Value Number) → Bool
  | [], [] => true
  | left :: lefts, right :: rights => same left right && sameItems lefts rights
  | _, _ => false

def sameEntries :
    List (Value Number × Value Number) → List (Value Number × Value Number) → Bool
  | [], _ => true
  | (key, value) :: rest, others =>
    others.any (fun entry => same key entry.1 && same value entry.2) && sameEntries rest others

end

def isNull (text : List Char) : Bool :=
  text = "null".toList || text = "Null".toList || text = "NULL".toList || text = ['~']

def bool? (text : List Char) : Option Bool :=
  if text = "true".toList ∨ text = "True".toList ∨ text = "TRUE".toList then some true
  else if text = "false".toList ∨ text = "False".toList ∨ text = "FALSE".toList then some false
  else none

/-- What a plain scalar stands for; an integer that does not fit stands for nothing. -/
def ofPlain? (text : List Char) : Option (Value Number) :=
  if text = [] ∨ isNull text then some .null
  else
    match bool? text with
    | some value => some (.bool value)
    | none =>
      match Number.integer? text with
      | some integer => (Number.ofInteger? integer).map .number
      | none =>
        match if Number.isZeroLed text then none else Number.real? text with
        | some value => some (.number (.real value))
        | none => some (.string (String.ofList text))

def ofStyle? (plain : Bool) (text : List Char) : Option (Value Number) :=
  if plain then ofPlain? text else some (.string (String.ofList text))

def standardTag (name : String) : List UInt8 :=
  asciiBytes ("tag:yaml.org,2002:".toList ++ name.toList)

def isOwnTag (tag : List UInt8) : Bool := (asciiBytes ['!']).isPrefixOf tag

def ownTag? (tag : List UInt8) : Option (List Char) :=
  if isOwnTag tag then
    (String.fromUTF8? ⟨tag.toArray⟩).map fun text => bareTag text.toList
  else none

/-- What a tag makes of a text, where all tags that are not standard ask for a string. -/
def ofStandardTag? (tag : List UInt8) (text : List Char) : Option (Value Number) :=
  if tag = standardTag "bool" then (bool? text).map .bool
  else if tag = standardTag "int" then
    ((Number.integer? text).bind Number.ofInteger?).map .number
  else if tag = standardTag "float" then
    (Number.real? text).map fun value => .number (.real value)
  else if tag = standardTag "null" then if isNull text then some .null else none
  else some (.string (String.ofList text))

def ofScalar? (tag : Option (List UInt8)) (plain : Bool) (text : List Char) :
    Option (Value Number) :=
  match tag with
  | none => ofStyle? plain text
  | some tag =>
    match ownTag? tag with
    | some name => (ofStyle? plain text).map (.tagged name)
    | none => if isOwnTag tag then ofStyle? plain text else ofStandardTag? tag text

def withTag (tag : Option (List UInt8)) (value : Value Number) : Value Number :=
  match tag.bind ownTag? with
  | some name => .tagged name value
  | none => value

def hasRepeatedKey : List (Value Number × Value Number) → Bool
  | [] => false
  | (key, _) :: rest => rest.any (fun entry => same key entry.1) || hasRepeatedKey rest

end Value

abbrev Following := StateT Nat Option

namespace Document

def follow (document : Document) (node : Node) : Following Node := do
  match node with
  | .reference number =>
    match ← get with
    | 0 => failure
    | left + 1 =>
      set left
      document.target? number
  | _ => return node

/-- The value of a node, with the number of collections that may still be nested. -/
def value (document : Document) : Nat → Node → Following (Value Number)
  | 0, node => do
    match ← document.follow node with
    | .scalar tag plain text => Value.ofScalar? tag plain text
    | _ => failure
  | depth + 1, node => do
    match ← document.follow node with
    | .scalar tag plain text => Value.ofScalar? tag plain text
    | .sequence tag items =>
      return Value.withTag tag (.sequence (← items.mapM (document.value depth)))
    | .mapping tag nodes =>
      let entries ← nodes.mapM fun entry =>
        return (← document.value depth entry.1, ← document.value depth entry.2)
      if Value.hasRepeatedKey entries then failure
      return Value.withTag tag (.mapping entries)
    | .reference _ => failure

/-- A scalar of any kind is a key at the top; its text counts. -/
def key (document : Document) (node : Node) : Following String := do
  match ← document.follow node with
  | .scalar _ _ text => return String.ofList text
  | _ => failure

def deepest : Nat := 128

def entriesOf (document : Document) (nodes : List (Node × Node)) :
    Following (List (String × Value Number)) := do
  let entries ← nodes.mapM fun entry =>
    return (← document.key entry.1, ← document.value (deepest - 1) entry.2)
  return entries.foldl (fun known entry => OrderedTable.putEntry entry.1 entry.2 known) []

/-- The entries of the mapping that a document is, where an empty document is an empty mapping. An
alias is followed at most a hundred times for each event. -/
def entries? (document : Document) : Option (List (String × Value Number)) :=
  match document.root with
  | none => some []
  | some (.scalar _ true []) => some []
  | some (.mapping _ nodes) => ((document.entriesOf nodes).run (100 * document.events)).map (·.1)
  | some _ => none

end Document

def library : Library Number where
  text := Number.text
  entries? text := (Document.read? text).bind Document.entries?

end Recognizer.Yaml
