import Recognizer.Yaml.Scan

/-!
From the tokens of a document to its tree of nodes. An anchor names the node it stands before; an
alias leads to the node of an anchor that was read earlier. Anchors are numbered by how many names
were known when they appeared, and of two nodes with one number the later one counts.
-/

namespace Recognizer.Yaml

inductive Node where
  | scalar (tag : Option (List UInt8)) (plain : Bool) (text : List Char)
  | sequence (tag : Option (List UInt8)) (items : List Node)
  | mapping (tag : Option (List UInt8)) (entries : List (Node × Node))
  | reference (number : Nat)

structure Anchored where
  number : Nat
  /-- The order in which the anchors appeared. -/
  order : Nat
  node : Node

structure Document where
  root : Option Node
  anchored : List Anchored
  /-- Scalars and aliases count once and collections twice. -/
  events : Nat

structure Reading where
  tokens : List Token
  handles : List (List Char × List UInt8)
  names : List (List Char × Nat)
  anchored : List Anchored
  order : Nat
  events : Nat

abbrev Reader := StateT Reading Option

namespace Reader

def peek : Reader (Option Token) := return (← get).tokens.head?

def skip : Reader Unit := modify fun reading => { reading with tokens := reading.tokens.drop 1 }

def count (events : Nat) : Reader Unit :=
  modify fun reading => { reading with events := reading.events + events }

def nextIsAny (tokens : List Token) : Reader Bool :=
  return (← peek).any (· ∈ tokens)

def take (token : Token) : Reader Bool := do
  if (← peek) = some token then
    skip
    return true
  else return false

structure Properties where
  anchor : Option (List Char)
  tag : Option (List Char × List UInt8)

def properties : Reader Properties := do
  match (← get).tokens with
  | .anchor name :: .tag handle suffix :: rest =>
    modify fun reading => { reading with tokens := rest }
    return ⟨some name, some (handle, suffix)⟩
  | .tag handle suffix :: .anchor name :: rest =>
    modify fun reading => { reading with tokens := rest }
    return ⟨some name, some (handle, suffix)⟩
  | .anchor name :: rest =>
    modify fun reading => { reading with tokens := rest }
    return ⟨some name, none⟩
  | .tag handle suffix :: rest =>
    modify fun reading => { reading with tokens := rest }
    return ⟨none, some (handle, suffix)⟩
  | _ => return ⟨none, none⟩

def resolveTag (tag : Option (List Char × List UInt8)) : Reader (Option (List UInt8)) := do
  match tag with
  | none => return none
  | some ([], suffix) => return some suffix
  | some (handle, suffix) =>
    match (← get).handles.lookup handle with
    | some stem => return some (stem ++ suffix)
    | none => failure

def define (name : List Char) : Reader (Nat × Nat) := do
  let reading ← get
  let number := reading.names.length
  set { reading with
    names := (name, number) :: reading.names.filter (·.1 ≠ name)
    order := reading.order + 1 }
  return (number, reading.order)

def record (place : Option (Nat × Nat)) (node : Node) : Reader Node := do
  match place with
  | none => return node
  | some (number, order) =>
    modify fun reading =>
      { reading with anchored := ⟨number, order, node⟩ :: reading.anchored }
    return node

def emptyNode (tag : Option (List UInt8)) : Reader Node := do
  count 1
  return .scalar tag true []

def reference (name : List Char) : Reader Node := do
  match (← get).names.lookup name with
  | some number =>
    skip
    count 1
    return .reference number
  | none => failure

def orEmpty (given : Properties) (tag : Option (List UInt8)) : Reader Node :=
  if given.anchor.isSome || given.tag.isSome then emptyNode tag else failure

mutual

/-- Reads a node. Outside brackets it may be a collection shown by indentation, and in a mapping a
sequence whose entries are no deeper than the mapping. -/
def node (steps : Nat) (block inMapping : Bool) : Reader Node :=
  match steps with
  | 0 => failure
  | steps + 1 => do
    match ← peek with
    | some (.reference name) => reference name
    | _ =>
      let given ← properties
      let tag ← resolveTag given.tag
      let place ← given.anchor.mapM define
      match ← peek with
      | some .blockEntry =>
        if inMapping then
          count 2
          record place (.sequence tag (← entriesOfMapping steps))
        else record place (← orEmpty given tag)
      | some (.scalar text plain) =>
        skip
        count 1
        record place (.scalar tag plain text)
      | some .flowSequenceStart =>
        skip
        count 2
        record place (.sequence tag (← flowItems steps true))
      | some .flowMappingStart =>
        skip
        count 2
        record place (.mapping tag (← flowEntries steps true))
      | some .blockSequenceStart =>
        if block then
          skip
          count 2
          record place (.sequence tag (← blockItems steps))
        else record place (← orEmpty given tag)
      | some .blockMappingStart =>
        if block then
          skip
          count 2
          record place (.mapping tag (← blockEntries steps))
        else record place (← orEmpty given tag)
      | _ => record place (← orEmpty given tag)

def nodeUnless (steps : Nat) (block inMapping : Bool) (ends : List Token) : Reader Node :=
  match steps with
  | 0 => failure
  | steps + 1 => do
    if ← nextIsAny ends then emptyNode none else node steps block inMapping

def blockItems (steps : Nat) : Reader (List Node) :=
  match steps with
  | 0 => failure
  | steps + 1 => do
    if ← take .blockEntry then
      let item ← nodeUnless steps true false [.blockEntry, .blockEnd]
      return item :: (← blockItems steps)
    else if ← take .blockEnd then return []
    else failure

def entriesOfMapping (steps : Nat) : Reader (List Node) :=
  match steps with
  | 0 => failure
  | steps + 1 => do
    if ← take .blockEntry then
      let item ← nodeUnless steps true false [.blockEntry, .key, .value, .blockEnd]
      return item :: (← entriesOfMapping steps)
    else return []

def blockEntries (steps : Nat) : Reader (List (Node × Node)) :=
  match steps with
  | 0 => failure
  | steps + 1 => do
    if ← take .key then
      let key ← nodeUnless steps true true [.key, .value, .blockEnd]
      let value ←
        if ← take .value then nodeUnless steps true true [.key, .value, .blockEnd]
        else emptyNode none
      return (key, value) :: (← blockEntries steps)
    else if ← take .blockEnd then return []
    else failure

def flowItems (steps : Nat) (first : Bool) : Reader (List Node) :=
  match steps with
  | 0 => failure
  | steps + 1 => do
    if ← take .flowSequenceEnd then return []
    else
      unless first do
        unless ← take .flowEntry do failure
      if ← take .key then
        let pair ← flowPair steps
        return pair :: (← flowItems steps false)
      else if ← take .flowSequenceEnd then return []
      else
        let item ← node steps false false
        return item :: (← flowItems steps false)

/-- Reads the one entry of a mapping that is an item of a sequence. A key that is left out takes the
token after it along. -/
def flowPair (steps : Nat) : Reader Node :=
  match steps with
  | 0 => failure
  | steps + 1 => do
    count 2
    let key ←
      if ← nextIsAny [.value, .flowEntry, .flowSequenceEnd] then
        skip
        emptyNode none
      else node steps false false
    let value ←
      if ← take .value then nodeUnless steps false false [.flowEntry, .flowSequenceEnd]
      else emptyNode none
    return .mapping none [(key, value)]

def flowEntries (steps : Nat) (first : Bool) : Reader (List (Node × Node)) :=
  match steps with
  | 0 => failure
  | steps + 1 => do
    if ← take .flowMappingEnd then return []
    else
      unless first do
        unless ← take .flowEntry do failure
      if ← take .key then
        let key ← nodeUnless steps false false [.value, .flowEntry, .flowMappingEnd]
        let value ←
          if ← take .value then nodeUnless steps false false [.flowEntry, .flowMappingEnd]
          else emptyNode none
        return (key, value) :: (← flowEntries steps false)
      else if ← take .flowMappingEnd then return []
      else
        let key ← node steps false false
        let value ← emptyNode none
        return (key, value) :: (← flowEntries steps false)

end

def standardHandles : List (List Char × List UInt8) :=
  [(['!'], asciiBytes ['!']), (['!', '!'], asciiBytes "tag:yaml.org,2002:".toList)]

/-- Reads the directives of a document: at most one version, and no handle twice. -/
def directives : Nat → Bool → List (List Char × List UInt8) →
    Reader (List (List Char × List UInt8))
  | 0, _, _ => failure
  | steps + 1, versioned, handles => do
    match ← peek with
    | some (.versionDirective major minor) =>
      if !versioned && major = 1 && (minor = 1 || minor = 2) then
        skip
        directives steps true handles
      else failure
    | some (.tagDirective handle stem) =>
      if (handles.lookup handle).isSome then failure
      else
        skip
        directives steps versioned ((handle, stem) :: handles)
    | _ => return handles

def isDirective : Token → Bool
  | .versionDirective _ _ | .tagDirective _ _ => true
  | _ => false

def root (steps : Nat) : Reader (Option Node) := do
  match ← peek with
  | none => return none
  | some token =>
    if isDirective token || token = .documentStart then
      let handles ← directives steps false []
      modify fun reading => { reading with handles := handles ++ standardHandles }
      unless ← take .documentStart do failure
      match ← peek with
      | none => return some (← emptyNode none)
      | some next =>
        if isDirective next || next = .documentStart || next = .documentEnd then
          return some (← emptyNode none)
        else return some (← node steps true false)
    else return some (← node steps true false)

end Reader

def Document.ofTokens? (tokens : List Token) : Option Document :=
  let steps := 3 * tokens.length + 3
  match (Reader.root steps).run ⟨tokens, Reader.standardHandles, [], [], 0, 0⟩ with
  | none => none
  | some (root, done) =>
    if done.tokens.all (· = .documentEnd) then some ⟨root, done.anchored, done.events⟩ else none

def Document.read? (text : List Char) : Option Document :=
  match Token.scan? text with
  | none => none
  | some tokens => Document.ofTokens? tokens

/-- The node that an alias leads to: of those with its number the one whose anchor appeared last. -/
def Document.target? (document : Document) (number : Nat) : Option Node :=
  let candidates := document.anchored.filter (·.number = number)
  let latest := candidates.foldl (fun order anchored => max order anchored.order) 0
  (candidates.find? (·.order = latest)).map Anchored.node

end Recognizer.Yaml
